import AppSupervisor.Registry.Notification

namespace AppSupervisor

structure Supervisor where
  home : String
  registry : Registry

inductive Request
  | start (manifest : Manifest)
  | stop (id : RunId)
  | resume (id : RunId)
  | terminate (id : RunId)
  | remove (id : RunId)
  | state (id : RunId)
  | list
  | collect

inductive Reply
  | started (id : RunId)
  | accepted
  | record (r : Record)
  | records (rs : List Record)
  | collected (count : Nat)
  deriving DecidableEq, Repr

structure Launching where
  slot : Nat
  runId : RunId
  app : String
  deriving DecidableEq, Repr

structure Signalling where
  slot : Nat
  signal : Signal
  before : RunState
  after : RunState
  deriving DecidableEq, Repr

/-- How far a request goes before it needs the launcher. It waits for the answer with what it carries
on; anything may have happened to the registry in between. -/
inductive Turn
  | done (result : Except Error Reply)
  | launch (desc : LaunchDesc) (pending : Launching)
  | signal (leader : Pid) (pending : Signalling)

namespace Supervisor

/-- A supervisor for a valid configuration. `makeHome` creates the application home, and what it
gives comes back with the supervisor. -/
def create {σ : Type} (c : Config) (a : Account) (makeHome : String → Except IoFault σ) :
    Except Error (Supervisor × σ) := do
  c.validate.mapError .invalid
  let home ← c.appHome a
  let made ← (makeHome home).mapError .io
  return (⟨home, ← Registry.ofConfig c⟩, made)

/-- Takes a slot for the new runner, ended runners making room, and asks for the launch. -/
def start (s : Supervisor) (m : Manifest) : Supervisor × Turn :=
  match LaunchDesc.ofManifest m s.home with
  | .error e => (s, .done (.error (.invalid e)))
  | .ok desc =>
    let r := s.registry.reclaim.1
    match r.allocate m with
    | .error e => ({ s with registry := r }, .done (.error e))
    | .ok (r, i) => ({ s with registry := r }, .launch desc ⟨i, (r.slot i).runId, desc.tag⟩)

def launched (s : Supervisor) (p : Launching) (answer : Except Error Children) :
    Supervisor × Except Error RunId :=
  match answer with
  | .ok children => ({ s with registry := s.registry.insertGroup p.slot children }, .ok p.runId)
  | .error e => ({ s with registry := s.registry.release p.slot }, .error (.launchFailed p.app e))

/-- Asks to signal a runner that is Running or Stopped, unless it is in the wanted state already. -/
def control (s : Supervisor) (id : RunId) (signal : Signal) (after : RunState) : Turn :=
  match s.registry.slotOfRunId? id with
  | none => .done (.error (.notFound id))
  | some i =>
    let runner := s.registry.slot i
    if runner.state ≠ .running ∧ runner.state ≠ .stopped then
      .done (.error (.denied id runner.state))
    else if runner.state = after then .done (.ok .accepted)
    else .signal runner.leader ⟨i, signal, runner.state, after⟩

/-- Ends a control request, except that a stopped group which was asked to terminate has to be
continued to act on it: then its leader is given. The request is accepted whatever becomes of that
second signal. -/
def signalled (s : Supervisor) (p : Signalling) (answer : Except Error Unit) :
    Supervisor × Except Error (Option Pid) :=
  match answer with
  | .error e => (s, .error e)
  | .ok () =>
    let s := { s with registry := s.registry.transition p.slot p.before p.after }
    if p.before = .stopped ∧ p.signal = .term then
      (s, .ok (some (s.registry.slot p.slot).leader))
    else (s, .ok none)

def list (s : Supervisor) : List Record :=
  (s.registry.toList.filter fun r => !r.state.isGone).map Runner.record

def state (s : Supervisor) (id : RunId) : Except Error Record :=
  match (s.registry.lookupRunId id).filter fun r => !r.state.isGone with
  | some r => .ok r.record
  | none => .error (.notFound id)

def collect (s : Supervisor) : Supervisor × Nat :=
  let (r, n) := s.registry.reclaim
  ({ s with registry := r }, n)

def remove (s : Supervisor) (id : RunId) : Supervisor × Except Error Unit :=
  match s.registry.slotOfRunId? id with
  | none => (s, .error (.notFound id))
  | some i =>
    let state := (s.registry.slot i).state
    if state = .terminated then ({ s with registry := s.registry.release i }, .ok ())
    else (s, .error (.denied id state))

/-- Serves a request up to its first call of the launcher. -/
def request (s : Supervisor) : Request → Supervisor × Turn
  | .start m => s.start m
  | .stop id => (s, s.control id .stop .stopped)
  | .resume id => (s, s.control id .cont .running)
  | .terminate id => (s, s.control id .term .terminating)
  | .remove id =>
    let (s, result) := s.remove id
    (s, .done (result.map fun _ => .accepted))
  | .state id => (s, .done ((s.state id).map .record))
  | .list => (s, .done (.ok (.records s.list)))
  | .collect =>
    let (s, n) := s.collect
    (s, .done (.ok (.collected n)))

def notify (groupOf : Pid → Option Pid) (s : Supervisor) (pid : Pid) (event : ChildEvent) :
    Supervisor × Bool :=
  let (r, owned) := s.registry.notify groupOf pid event
  ({ s with registry := r }, owned)

end Supervisor
end AppSupervisor
