import AppSupervisor.Registry.Basic

namespace AppSupervisor

/-- A registry without slots, links and buckets: who is live, the newest first, and the serial numbers
of those indexed by process group, the one indexed last first. -/
structure Roster where
  runners : List Runner
  /-- The serial numbers of the runners indexed by process group, the one indexed last first. -/
  indexed : List Nat
  lastRunId : UInt32
  allocations : Nat

namespace Roster

def empty : Roster := ⟨[], [], 0, 0⟩

def size (r : Roster) : Nat := r.runners.length

def find? (r : Roster) (serial : Nat) : Option Runner := r.runners.find? (·.serial = serial)

def grouped (r : Roster) : List Runner := r.indexed.filterMap r.find?

def lookupRunId (r : Roster) (id : RunId) : Option Runner := r.runners.find? (·.runId = id)

def lookupGroup (r : Roster) (group : Pid) : Option Runner := r.grouped.find? (·.leader = group)

def lookupPid (groupOf : Pid → Option Pid) (r : Roster) (pid : Pid) : Option Runner :=
  (r.lookupGroup pid).or (((groupOf pid).bind r.lookupGroup).filter (·.app = pid))

def toList (r : Roster) (buckets : Nat) (bucket : RunId → Nat) : List Runner :=
  (List.range buckets).flatMap fun b => r.runners.filter (bucket ·.runId = b)

/-- The ids behind `last` in the ring 1 … maxRunId, so many of them. -/
def ring (maxRunId last : UInt32) (count : Nat) : List RunId :=
  (List.range count).map fun k => ⟨UInt32.ofNat ((last.toNat + k) % maxRunId.toNat + 1)⟩

def unusedRunId? (r : Roster) (maxRunId : UInt32) : Option RunId :=
  (ring maxRunId r.lastRunId (r.size + 1)).find? fun id => (r.lookupRunId id).isNone

def allocate (capacity : Nat) (maxRunId : UInt32) (r : Roster) (m : Manifest) :
    Except Error (Roster × Nat) :=
  if capacity ≤ r.size then .error (.exhausted capacity)
  else
    match r.unusedRunId? maxRunId with
    | none => .error (.exhausted capacity)
    | some id =>
      let runner : Runner := ⟨id, ⟨0⟩, ⟨0⟩, .starting, some m, r.allocations⟩
      .ok ({ r with
        runners := runner :: r.runners
        lastRunId := id.val
        allocations := r.allocations + 1 }, r.allocations)

def modify (r : Roster) (serial : Nat) (f : Runner → Runner) : Roster :=
  { r with runners := r.runners.map fun s => if s.serial = serial then f s else s }

def insertGroup (r : Roster) (serial : Nat) (children : Children) : Roster :=
  let r := r.modify serial fun s =>
    { s with leader := children.leader, app := children.app, state := .running }
  { r with indexed := serial :: r.indexed }

def eraseGroup (r : Roster) (serial : Nat) : Roster :=
  { r with indexed := r.indexed.erase serial }

def updateState (r : Roster) (serial : Nat) (f : RunState → RunState) : Roster :=
  r.modify serial fun s => { s with state := f s.state }

def release (r : Roster) (serial : Nat) : Roster :=
  { r with runners := r.runners.filter (·.serial ≠ serial) }

def reclaim (r : Roster) : Roster × Nat :=
  let (ended, left) := r.runners.partition (·.state = .terminated)
  ({ r with runners := left }, ended.length)

end Roster
end AppSupervisor
