import AppSupervisor.Config
import AppSupervisor.Manifest
import AppSupervisor.Record
import AppSupervisor.Registry.Index

namespace AppSupervisor

structure Runner where
  runId : RunId
  leader : Pid
  app : Pid
  state : RunState
  manifest : Option Manifest
  /-- How many runners had been allocated before: it tells runners apart that use the same slot or
  the same run id one after the other. -/
  serial : Nat
  deriving Inhabited

namespace Runner

def vacant : Runner := ⟨⟨0⟩, ⟨0⟩, ⟨0⟩, .terminated, none, 0⟩

def appId (r : Runner) : String := (r.manifest.map Manifest.appId).getD ""

def record (r : Runner) : Record := ⟨r.runId, r.state.reported, r.appId⟩

def debugText (r : Runner) : String :=
  s!"Runner \x7b run_id: RunId({r.runId.val}), state: {r.state.name}, leader: Pid({r.leader.val}), app: Pid({r.app.val}) \x7d"

end Runner

/-- All runners of a supervisor, in an arena with one slot for each that may be live. A free slot is on
the stack of free slots, any other on the chain of its run id; it is on the chain of its process
group as well from the launch until the process is known to have ended. -/
structure Registry where
  slots : Array Runner
  byRunId : Index
  byGroup : Index
  maxRunId : UInt32
  lastRunId : UInt32
  live : Nat
  free : List Nat
  allocations : Nat

namespace Registry

/-- A table of 32-bit links must not take more than half of the address space. -/
def isReservable (buckets : UInt64) : Bool := 8 * buckets.toNat < UInt64.size

def empty (capacity : Nat) (maxRunId : UInt32) (buckets : Nat) : Registry where
  slots := .replicate capacity .vacant
  byRunId := .create buckets capacity
  byGroup := .create buckets capacity
  maxRunId
  lastRunId := 0
  live := 0
  free := List.range capacity
  allocations := 0

def create (capacity : UInt64) (maxRunId : UInt32) (buckets : UInt64) : Except Error Registry :=
  if !isCapacity capacity then .error (.invalid (.runnerCapacity capacity))
  else if maxRunId.toUInt64 < capacity then .error (.invalid (.runIdRange maxRunId capacity))
  else if !isPowerOfTwo buckets then .error (.invalid (.bucketCount buckets))
  else if !isReservable buckets then .error .outOfMemory
  else .ok (empty capacity.toNat maxRunId buckets.toNat)

def ofConfig (c : Config) : Except Error Registry := create c.capacity c.maxRunId c.buckets

def capacity (r : Registry) : Nat := r.slots.size

def size (r : Registry) : Nat := r.live

def isEmpty (r : Registry) : Bool := r.live == 0

def debugText (r : Registry) : String :=
  s!"Registry \x7b capacity: {r.slots.size}, buckets: {r.byRunId.heads.size}, max_run_id: {r.maxRunId} \x7d"

def slot (r : Registry) (i : Nat) : Runner := r.slots.getD i .vacant

def modifySlot (r : Registry) (i : Nat) (f : Runner → Runner) : Registry :=
  { r with slots := r.slots.modify i f }

def runIdBucket (r : Registry) (id : RunId) : Nat := r.byRunId.bucket id.val

def groupBucket (r : Registry) (leader : Pid) : Nat := r.byGroup.bucket leader.val.toUInt32

def slotOfRunId? (r : Registry) (id : RunId) : Option Nat :=
  (r.byRunId.chain (r.runIdBucket id)).find? fun i => (r.slot i).runId = id

/-- The slot of a process group: of several runners with that leader the one indexed last. -/
def slotOfGroup? (r : Registry) (group : Pid) : Option Nat :=
  (r.byGroup.chain (r.groupBucket group)).find? fun i => (r.slot i).leader = group

/-- The slot of the runner that a process belongs to. A group leader's pid is its group; any other
process counts only if it is the application of its group's runner. -/
def slotOfPid? (groupOf : Pid → Option Pid) (r : Registry) (pid : Pid) : Option Nat :=
  (r.slotOfGroup? pid).or
    (((groupOf pid).bind r.slotOfGroup?).filter fun i => (r.slot i).app = pid)

def lookupRunId (r : Registry) (id : RunId) : Option Runner := (r.slotOfRunId? id).map r.slot

def lookupGroup (r : Registry) (group : Pid) : Option Runner := (r.slotOfGroup? group).map r.slot

def lookupPid (groupOf : Pid → Option Pid) (r : Registry) (pid : Pid) : Option Runner :=
  (r.slotOfPid? groupOf pid).map r.slot

def toList (r : Registry) : List Runner := r.byRunId.toList.map r.slot

def nextRunId (maxRunId last : UInt32) : UInt32 := last % maxRunId + 1

def unusedRunId? (r : Registry) : Nat → UInt32 → Option UInt32
  | 0, _ => none
  | n + 1, last =>
    let id := nextRunId r.maxRunId last
    if (r.slotOfRunId? ⟨id⟩).isSome then r.unusedRunId? n id else some id

/-- Takes a slot for a new runner in the Starting state, indexed by its new run id. The live runners
hold `live` ids, so one of the next `live + 1` ids is unused. -/
def allocate (r : Registry) (m : Manifest) : Except Error (Registry × Nat) :=
  if r.capacity ≤ r.live then .error (.exhausted r.capacity)
  else
    match r.unusedRunId? (r.live + 1) r.lastRunId, r.free with
    | some id, i :: free =>
      let r := r.modifySlot i fun s =>
        { s with
          runId := ⟨id⟩, leader := ⟨0⟩, app := ⟨0⟩, state := .starting, manifest := some m
          serial := r.allocations }
      .ok ({ r with
        byRunId := r.byRunId.insert (r.runIdBucket ⟨id⟩) i
        byGroup := r.byGroup.cut i
        lastRunId := id
        live := r.live + 1
        free
        allocations := r.allocations + 1 }, i)
    | _, _ => .error (.exhausted r.capacity)

def insertGroup (r : Registry) (i : Nat) (children : Children) : Registry :=
  let r := r.modifySlot i fun s =>
    { s with leader := children.leader, app := children.app, state := .running }
  { r with byGroup := r.byGroup.insert (r.groupBucket children.leader) i }

def eraseGroup (r : Registry) (i : Nat) : Registry :=
  { r with byGroup := (r.byGroup.erase? (r.groupBucket (r.slot i).leader) i).getD r.byGroup }

/-- Gives a slot back, with its run id and its manifest. The runner must not be in the index of
process groups. -/
def release (r : Registry) (i : Nat) : Registry :=
  let chained := (r.byRunId.erase? (r.runIdBucket (r.slot i).runId) i).getD r.byRunId
  let r := { r with
    byRunId := chained.cut i
    live := r.live - 1
    free := i :: r.free }
  r.modifySlot i fun s => { s with runId := ⟨0⟩, state := .terminated, manifest := none }

def reclaim (r : Registry) : Registry × Nat :=
  Index.visitAll (fun s => s.1.byRunId)
    (fun (r, n) i => if (r.slot i).state = .terminated then (r.release i, n + 1) else (r, n)) (r, 0)

def updateState (r : Registry) (i : Nat) (f : RunState → RunState) : Registry :=
  r.modifySlot i fun s => { s with state := f s.state }

/-- Moves a runner from one state to another, unless it has left the first in between. -/
def transition (r : Registry) (i : Nat) (before after : RunState) : Registry :=
  r.updateState i fun state => if state = before then after else state

end Registry
end AppSupervisor
