import AppSupervisor.ChildEvent
import AppSupervisor.Registry.Basic

namespace AppSupervisor.Registry

def afterReport (reported state : RunState) : RunState := if state.isGone then state else reported

/-- Applies a status change to the runner that owns the process, and tells whether there is one. A
runner that ends leaves the index of process groups first, so that a Terminated runner is never
found there. -/
def notify (groupOf : Pid → Option Pid) (r : Registry) (pid : Pid) (event : ChildEvent) :
    Registry × Bool :=
  match r.slotOfPid? groupOf pid with
  | none => (r, false)
  | some i =>
    if event.isTerminal then ((r.eraseGroup i).updateState i fun _ => .terminated, true)
    else if event = .stopped then (r.updateState i (afterReport .stopped), true)
    else (r.updateState i (afterReport .running), true)

/-- The statuses that the system holds for each child, oldest first. A process that is no child has
no queue of them. -/
structure Pending where
  queue : Pid → Option (List WaitStatus)
  own : ∀ pid statuses, queue pid = some statuses → ∀ status ∈ statuses, status.pid? = some pid

namespace Pending

def none : Pending := ⟨fun _ => .none, nofun⟩

def set (p : Pending) (pid : Pid) (statuses : List WaitStatus)
    (own : ∀ status ∈ statuses, status.pid? = some pid) : Pending where
  queue q := if q = pid then some statuses else p.queue q
  own q statuses' held := by
    split at held
    next same =>
      cases held
      exact same ▸ own
    next => exact p.own q statuses' held

/-- The answer when the system is asked for a process's status without waiting, and what is pending
after that: an error, here nothing, for a process that is no child. -/
def wait (p : Pending) (pid : Pid) : Option (WaitStatus × Pending) :=
  match held : p.queue pid with
  | .none => .none
  | some [] => some (.stillAlive, p)
  | some (status :: later) =>
    some (status, p.set pid later fun s hs => p.own pid _ held s (List.mem_cons_of_mem status hs))

theorem wait_stranger {p : Pending} {pid : Pid} (stranger : p.queue pid = .none) :
    p.wait pid = .none := by
  unfold wait
  split
  next => rfl
  next held => simp [stranger] at held
  next held => simp [stranger] at held

theorem wait_alive {p : Pending} {pid : Pid} (held : p.queue pid = some []) :
    p.wait pid = some (.stillAlive, p) := by
  unfold wait
  split
  next stranger => simp [held] at stranger
  next => rfl
  next held' => simp [held] at held'

theorem wait_next {p : Pending} {pid : Pid} {status : WaitStatus} {later : List WaitStatus}
    (held : p.queue pid = some (status :: later)) :
    p.wait pid = some (status,
      p.set pid later fun s hs => p.own pid _ held s (List.mem_cons_of_mem status hs)) := by
  unfold wait
  split
  next stranger => simp [held] at stranger
  next held' => simp [held] at held'
  next held' =>
    cases held.symm.trans held'
    rfl

def count (p : Pending) (pid : Pid) : Nat := ((p.queue pid).getD []).length

theorem count_lt_of_wait {p p' : Pending} {pid : Pid} {status : WaitStatus}
    {change : Pid × ChildEvent} (answer : p.wait pid = some (status, p'))
    (changed : status.change? = some change) : p'.count pid < p.count pid := by
  unfold wait at answer
  split at answer
  next => cases answer
  next =>
    cases answer
    cases changed
  next held =>
    cases answer
    simp [count, set, held]

end Pending

structure Reaping where
  registry : Registry
  pending : Pending
  applied : Nat

/-- Asks for one leader's statuses and applies them, up to its end or to the first that is no
change. -/
def Reaping.collect (groupOf : Pid → Option Pid) (s : Reaping) (leader : Pid) : Reaping :=
  match _ : s.pending.wait leader with
  | none => s
  | some (status, pending) =>
    match _ : status.change? with
    | none => { s with pending }
    | some (pid, event) =>
      let (r, owned) := s.registry.notify groupOf pid event
      let next : Reaping := ⟨r, pending, if owned then s.applied + 1 else s.applied⟩
      if event.isTerminal then next else next.collect groupOf leader
termination_by s.pending.count leader
decreasing_by exact Pending.count_lt_of_wait ‹_› ‹_›

theorem Reaping.collect_self {groupOf : Pid → Option Pid} {s : Reaping} {leader : Pid}
    (none : s.pending.queue leader = none ∨ s.pending.queue leader = some []) :
    s.collect groupOf leader = s := by
  rw [collect]
  split
  next => rfl
  next answer =>
    rcases none with stranger | alive
    · cases (Pending.wait_stranger stranger).symm.trans answer
    · cases (Pending.wait_alive alive).symm.trans answer
      rfl

theorem Reaping.collect_next {groupOf : Pid → Option Pid} {s : Reaping} {leader pid : Pid}
    {status : WaitStatus} {later : List WaitStatus} {event : ChildEvent}
    (held : s.pending.queue leader = some (status :: later))
    (changed : status.change? = some (pid, event)) :
    let taken : Reaping := ⟨(s.registry.notify groupOf pid event).1,
      s.pending.set leader later fun s' hs =>
        s.pending.own leader _ held s' (List.mem_cons_of_mem status hs),
      if (s.registry.notify groupOf pid event).2 then s.applied + 1 else s.applied⟩
    s.collect groupOf leader =
      if event.isTerminal then taken else taken.collect groupOf leader := by
  intro taken
  rw [collect]
  split
  next answer => cases (Pending.wait_next held).symm.trans answer
  next answer =>
    cases (Pending.wait_next held).symm.trans answer
    split
    next lasting => cases changed.symm.trans lasting
    next change =>
      cases changed.symm.trans change
      rfl

def reap (groupOf : Pid → Option Pid) (r : Registry) (pending : Pending) : Reaping :=
  Index.visitAll (·.registry.byGroup)
    (fun s i => s.collect groupOf (s.registry.slot i).leader)
    ⟨r, pending, 0⟩

end AppSupervisor.Registry
