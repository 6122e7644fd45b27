import AppSupervisor.ControlThread

namespace AppSupervisor

structure LaunchScript where
  refuse : Option String
  leader : Option Pid
  app : Option Pid

inductive Action
  | start (manifest : Except Error Manifest)
  | request (r : Request)
  | notify (status : WaitStatus)
  | reap
  | size
  | lookupRunId (id : RunId)
  | lookupGroup (group : Pid)
  | lookupPid (pid : Pid)
  | debug (id : RunId)
  | refuseSignals (signals : List Signal)

inductive Scene
  | mk (action : Action) (launch : LaunchScript) (inside : List Scene)

inductive LauncherCall
  | launch (desc : LaunchDesc)
  | signal (leader : Pid) (signal : Signal)

inductive Finding
  | reply (r : Reply)
  | notified (owned : Option Bool)
  | reaped (applied : Nat)
  | size (live : Nat) (isEmpty : Bool) (capacity : Nat)
  | runner (r : Option Runner)
  | text (s : Option String)
  | nothing

structure Observation where
  result : Except Error Finding
  runners : List Runner

/-- The outcome of a step: its result, the launcher calls made during it, and what was observed of
the steps inside it in the order in which they ended. -/
structure Act where
  observation : Observation
  calls : List LauncherCall
  inside : List Observation

structure Rehearsal where
  thread : ControlThread
  launched : Nat
  refused : List Signal

namespace Rehearsal

def ofSupervisor (s : Supervisor) : Rehearsal := ⟨.ofSupervisor s, 0, []⟩

/-- What does not change during a rehearsal. -/
structure Stage where
  firstPid : Int
  groupOf : Pid → Option Pid

def answerLaunch (stage : Stage) (r : Rehearsal) (script : LaunchScript) :
    Rehearsal × Except Error Children :=
  match script.refuse with
  | some reason => (r, .error (.launchRefused reason))
  | none =>
    let leader := script.leader.getD ⟨Int32.ofInt (stage.firstPid + r.launched)⟩
    ({ r with launched := r.launched + 1 }, .ok ⟨leader, script.app.getD leader⟩)

def answerSignal (r : Rehearsal) (leader : Pid) (signal : Signal) :
    Except Error Unit × List LauncherCall :=
  if signal ∈ r.refused then (.error .signalRefused, []) else (.ok (), [.signal leader signal])

def move (stage : Stage) (r : Rehearsal) (m : Move) : Rehearsal × Outcome :=
  let (t, outcome) := r.thread.step stage.groupOf m
  ({ r with thread := t }, outcome)

def findingOf : Outcome → Except Error Finding
  | .replied result => result.map .reply
  | .notified owned => .ok (.notified (some owned))
  | _ => .ok .nothing

def registry (r : Rehearsal) : Registry := r.thread.supervisor.registry

def conclude (r : Rehearsal) (result : Except Error Finding) (calls : List LauncherCall)
    (inside : List Observation) : Rehearsal × Act :=
  (r, ⟨⟨result, r.registry.toList⟩, calls, inside⟩)

def concludeSignal (stage : Stage) (r : Rehearsal) (answer : Except Error Unit)
    (calls : List LauncherCall) (inside : List Observation) : Rehearsal × Act :=
  match r.move stage (.signalled answer) with
  | (r, .signalling leader signal) =>
    let (answer, more) := r.answerSignal leader signal
    let (r, outcome) := r.move stage (.signalled answer)
    r.conclude (findingOf outcome) (calls ++ more) inside
  | (r, outcome) => r.conclude (findingOf outcome) calls inside

def observe (stage : Stage) (r : Rehearsal) : Action → Rehearsal × Except Error Finding
  | .notify status =>
    match status.change? with
    | none => (r, .ok (.notified none))
    | some (pid, event) =>
      let (r, outcome) := r.move stage (.notify pid event)
      (r, findingOf outcome)
  | .reap =>
    let s := r.registry.reap stage.groupOf .none
    ({ r with thread.supervisor.registry := s.registry }, .ok (.reaped s.applied))
  | .size => (r, .ok (.size r.registry.size r.registry.isEmpty r.registry.capacity))
  | .lookupRunId id => (r, .ok (.runner (r.registry.lookupRunId id)))
  | .lookupGroup group => (r, .ok (.runner (r.registry.lookupGroup group)))
  | .lookupPid pid => (r, .ok (.runner (r.registry.lookupPid stage.groupOf pid)))
  | .debug id => (r, .ok (.text ((r.registry.lookupRunId id).map Runner.debugText)))
  | .refuseSignals signals => ({ r with refused := signals }, .ok .nothing)
  | .start (.error e) => (r, .error e)
  | .start (.ok _) | .request _ => (r, .ok .nothing)

def requestOf : Action → Option Request
  | .start (.ok m) => some (.start m)
  | .request r => some r
  | _ => none

mutual

/-- Follows a step. The steps inside it are followed during its first call of the launcher. -/
def play (stage : Stage) (r : Rehearsal) : Scene → Rehearsal × Act
  | .mk action script inside =>
    match requestOf action with
    | none =>
      let (r, result) := r.observe stage action
      r.conclude result [] []
    | some request =>
      match r.move stage (.request request) with
      | (r, .launching desc) =>
        let (r, calls, seen) := playAll stage r inside
        let (r, answer) := r.answerLaunch stage script
        let (r, outcome) := r.move stage (.launched answer)
        r.conclude (findingOf outcome) (.launch desc :: calls) seen
      | (r, .signalling leader signal) =>
        let (r, calls, seen) := playAll stage r inside
        let (answer, more) := r.answerSignal leader signal
        r.concludeSignal stage answer (calls ++ more) seen
      | (r, outcome) => r.conclude (findingOf outcome) [] []

def playAll (stage : Stage) (r : Rehearsal) :
    List Scene → Rehearsal × List LauncherCall × List Observation
  | [] => (r, [], [])
  | scene :: scenes =>
    let (r, act) := r.play stage scene
    let (r, calls, seen) := r.playAll stage scenes
    (r, act.calls ++ calls, act.inside ++ act.observation :: seen)

end

def perform (stage : Stage) (r : Rehearsal) : List Scene → Rehearsal × List Act
  | [] => (r, [])
  | scene :: scenes =>
    let (r, act) := r.play stage scene
    let (r, acts) := r.perform stage scenes
    (r, act :: acts)

end Rehearsal
end AppSupervisor
