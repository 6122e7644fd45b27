import AppSupervisor.Supervisor

namespace AppSupervisor

inductive Waiting
  | launching (p : Launching)
  | signalling (p : Signalling)
  /-- Waits only for the end of the second signal of a terminate. -/
  | continuing
  deriving DecidableEq, Repr

/-- A supervisor together with the requests that wait for its launcher. While the launcher works on a
call it may make further requests, and status changes may be reported, so the waiting requests form
a stack: the launcher's answer goes to the one that called last, which comes first. -/
structure ControlThread where
  supervisor : Supervisor
  waiting : List Waiting

inductive Move
  | request (r : Request)
  | notify (pid : Pid) (event : ChildEvent)
  | launched (answer : Except Error Children)
  | signalled (answer : Except Error Unit)

inductive Outcome
  | replied (result : Except Error Reply)
  | notified (owned : Bool)
  | launching (desc : LaunchDesc)
  | signalling (leader : Pid) (signal : Signal)
  | ignored

namespace ControlThread

def ofSupervisor (s : Supervisor) : ControlThread := ⟨s, []⟩

/-- One move; the system tells the group of a process. -/
def step (groupOf : Pid → Option Pid) (t : ControlThread) : Move → ControlThread × Outcome
  | .request r =>
    match t.supervisor.request r with
    | (s, .done result) => (⟨s, t.waiting⟩, .replied result)
    | (s, .launch desc p) => (⟨s, .launching p :: t.waiting⟩, .launching desc)
    | (s, .signal leader p) => (⟨s, .signalling p :: t.waiting⟩, .signalling leader p.signal)
  | .notify pid event =>
    let (s, owned) := t.supervisor.notify groupOf pid event
    (⟨s, t.waiting⟩, .notified owned)
  | .launched answer =>
    match t.waiting with
    | .launching p :: waiting =>
      let (s, result) := t.supervisor.launched p answer
      (⟨s, waiting⟩, .replied (result.map .started))
    | _ => (t, .ignored)
  | .signalled answer =>
    match t.waiting with
    | .signalling p :: waiting =>
      match t.supervisor.signalled p answer with
      | (s, .error e) => (⟨s, waiting⟩, .replied (.error e))
      | (s, .ok none) => (⟨s, waiting⟩, .replied (.ok .accepted))
      | (s, .ok (some leader)) => (⟨s, .continuing :: waiting⟩, .signalling leader .cont)
    | .continuing :: waiting => (⟨t.supervisor, waiting⟩, .replied (.ok .accepted))
    | _ => (t, .ignored)

def run (groupOf : Pid → Option Pid) (t : ControlThread) (moves : List Move) : ControlThread :=
  moves.foldl (fun t m => (t.step groupOf m).1) t

end ControlThread
end AppSupervisor
