import AppSupervisor.Proofs.Registry.View
import AppSupervisor.Proofs.RunState

namespace AppSupervisor

/-- What is done to a registry. A live runner is named by its run id. -/
inductive Registry.Operation
  | allocate (m : Manifest)
  | insertGroup (id : RunId) (children : Children)
  | eraseGroup (id : RunId)
  | finish (id : RunId)
  | release (id : RunId)
  | reclaim

inductive Registry.Answer
  | allocated (result : Except Error RunId)
  | inserted
  | erased (found : Bool)
  | released
  | reclaimed (count : Nat)
  /-- There is no such runner, or it does not admit the operation. -/
  | refused

namespace Registry

def isGrouped (r : Registry) (i : Nat) : Bool :=
  (r.byGroup.erase? (r.groupBucket (r.slot i).leader) i).isSome

def withSlot (r : Registry) (id : RunId) (f : Nat → Registry × Answer) : Registry × Answer :=
  match r.slotOfRunId? id with
  | some i => f i
  | none => (r, .refused)

def perform (r : Registry) : Operation → Registry × Answer
  | .allocate m =>
    match r.allocate m with
    | .ok (r, i) => (r, .allocated (.ok (r.slot i).runId))
    | .error e => (r, .allocated (.error e))
  | .insertGroup id children => r.withSlot id fun i =>
    if (r.slot i).state = .starting then (r.insertGroup i children, .inserted) else (r, .refused)
  | .eraseGroup id => r.withSlot id fun i => (r.eraseGroup i, .erased (r.isGrouped i))
  | .finish id => r.withSlot id fun i =>
    ((r.eraseGroup i).updateState i fun _ => .terminated, .erased (r.isGrouped i))
  | .release id => r.withSlot id fun i =>
    if r.isGrouped i then (r, .refused) else (r.release i, .released)
  | .reclaim => (r.reclaim.1, .reclaimed r.reclaim.2)

def performAll (r : Registry) : List Operation → Registry × List Answer
  | [] => (r, [])
  | op :: ops =>
    let (r, answer) := r.perform op
    let (r, answers) := r.performAll ops
    (r, answer :: answers)

end Registry

namespace Roster

open Registry (Operation Answer)

def withRunner (a : Roster) (id : RunId) (f : Runner → Roster × Answer) : Roster × Answer :=
  match a.lookupRunId id with
  | some s => f s
  | none => (a, .refused)

def perform (capacity : Nat) (maxRunId : UInt32) (a : Roster) : Operation → Roster × Answer
  | .allocate m =>
    match a.allocate capacity maxRunId m with
    | .ok (a, _) => (a, .allocated (.ok ⟨a.lastRunId⟩))
    | .error e => (a, .allocated (.error e))
  | .insertGroup id children => a.withRunner id fun s =>
    if s.state = .starting then (a.insertGroup s.serial children, .inserted) else (a, .refused)
  | .eraseGroup id => a.withRunner id fun s =>
    (a.eraseGroup s.serial, .erased (a.indexed.contains s.serial))
  | .finish id => a.withRunner id fun s =>
    ((a.eraseGroup s.serial).updateState s.serial fun _ => .terminated,
      .erased (a.indexed.contains s.serial))
  | .release id => a.withRunner id fun s =>
    if a.indexed.contains s.serial then (a, .refused) else (a.release s.serial, .released)
  | .reclaim => (a.reclaim.1, .reclaimed a.reclaim.2)

def performAll (capacity : Nat) (maxRunId : UInt32) (a : Roster) :
    List Operation → Roster × List Answer
  | [] => (a, [])
  | op :: ops =>
    let (a, answer) := a.perform capacity maxRunId op
    let (a, answers) := a.performAll capacity maxRunId ops
    (a, answer :: answers)

end Roster

namespace Registry

/-- A roster says what a registry answers, whichever slots its runners got. -/
structure Refines (d : Measures) (r : Registry) (live grouped : List Nat) (a : Roster) :
    Prop where
  layout : r.Layout d live grouped
  roster : r.roster live grouped = a
  process : ∀ i ∈ grouped, (r.slot i).state.hasProcess

/-- A registry answers a roster's questions as the roster does: who has a run id, who leads a group
(of several the one indexed last), who is live (bucket after bucket, the newest first within one)
and how many are. -/
structure AnswersLike (r : Registry) (a : Roster) (buckets : Nat) : Prop where
  lookupRunId : ∀ id, r.lookupRunId id = a.lookupRunId id
  lookupGroup : ∀ group, r.lookupGroup group = a.lookupGroup group
  toList : r.toList = a.toList buckets fun id => id.toNat &&& (buckets - 1)
  size : r.size = a.size

def Agree (d : Measures) (x : Registry × Answer) (y : Roster × Answer) : Prop :=
  x.2 = y.2 ∧ ∃ live grouped, x.1.Refines d live grouped y.1

variable {d : Measures} {r : Registry} {a : Roster} {live grouped : List Nat} {i : Nat}

theorem refines_empty (d : Measures) :
    (empty d.capacity d.maxRunId d.buckets).Refines d [] [] .empty :=
  ⟨layout_empty d, rfl, by simp⟩

theorem Layout.isGrouped_iff (h : r.Layout d live grouped) : r.isGrouped i ↔ i ∈ grouped := by
  by_cases hi : i ∈ grouped
  · obtain ⟨y, hy, _⟩ := h.erase?_byGroup hi
    simp [isGrouped, hy, hi]
  · simp [isGrouped, h.byGroup.erase?_eq_none hi, hi]

theorem Layout.contains_indexed (h : r.Layout d live grouped) (hi : i ∈ live) :
    (r.roster live grouped).indexed.contains (r.slot i).serial = r.isGrouped i := by
  rw [Bool.eq_iff_iff, h.isGrouped_iff, List.contains_iff_mem]
  simp only [Registry.roster, List.mem_map]
  constructor
  · rintro ⟨j, hj, same⟩
    exact h.serial_inj (h.grouped_live j hj) hi same ▸ hj
  · exact fun hm => ⟨i, hm, rfl⟩

namespace Refines

theorem contains_indexed (h : r.Refines d live grouped a) (hi : i ∈ live) :
    a.indexed.contains (r.slot i).serial = r.isGrouped i := by
  rw [← h.roster, h.layout.contains_indexed hi]

theorem refused (h : r.Refines d live grouped a) : Agree d (r, .refused) (a, .refused) :=
  ⟨rfl, live, grouped, h⟩

theorem withSlot (h : r.Refines d live grouped a) (id : RunId) {f : Nat → Registry × Answer}
    {g : Runner → Roster × Answer} (named : ∀ i ∈ live, Agree d (f i) (g (r.slot i))) :
    Agree d (r.withSlot id f) (a.withRunner id g) := by
  have lookup : (r.slotOfRunId? id).map r.slot = a.lookupRunId id := by
    rw [← h.roster, ← h.layout.lookupRunId_eq]
    rfl
  unfold Registry.withSlot Roster.withRunner
  rw [← lookup]
  cases hs : r.slotOfRunId? id with
  | none => exact h.refused
  | some i => exact named i (h.layout.slotOfRunId?_eq_some.mp hs).1

theorem allocated {m : Manifest} {r' : Registry} (h : r.Refines d live grouped a)
    (allocates : r.Allocates m r' i) :
    r'.Refines d (i :: live) grouped (r'.roster (i :: live) grouped) := by
  refine ⟨h.layout.allocate allocates, rfl, fun j hj => ?_⟩
  rw [h.layout.slot_allocate allocates (h.layout.grouped_live j hj)]
  exact h.process j hj

theorem allocate (h : r.Refines d live grouped a) (m : Manifest) :
    Agree d (r.perform (.allocate m)) (a.perform d.capacity d.maxRunId (.allocate m)) := by
  rw [← h.roster]
  cases hr : r.allocate m with
  | error e =>
    simp only [perform, Roster.perform, hr, h.layout.roster_allocate_error hr]
    exact ⟨rfl, live, grouped, { h with roster := rfl }⟩
  | ok result =>
    obtain ⟨r', i⟩ := result
    have allocates := allocate_eq_ok hr
    simp only [perform, Roster.perform, hr, h.layout.roster_allocate allocates]
    exact ⟨by rw [h.layout.slot_allocated allocates]; rfl, i :: live, grouped,
      h.allocated allocates⟩

theorem insertGroup (h : r.Refines d live grouped a) (hi : i ∈ live)
    (starting : (r.slot i).state = .starting) (children : Children) :
    (r.insertGroup i children).Refines d live (i :: grouped)
      (a.insertGroup (r.slot i).serial children) := by
  have hg : i ∉ grouped := fun hm => RunState.ne_starting (h.process i hm) starting
  refine ⟨h.layout.insertGroup hi hg children, ?_, fun j hj => ?_⟩
  · rw [← h.roster, h.layout.roster_insertGroup hi children]
  · rcases List.mem_cons.mp hj with rfl | hj
    · rw [slot_insertGroup, if_pos ⟨rfl, h.layout.lt_size hi⟩]
      rfl
    · rw [slot_insertGroup_of_ne (ne_of_mem_of_not_mem hj hg)]
      exact h.process j hj

theorem eraseGroup (h : r.Refines d live grouped a) (hi : i ∈ live) :
    (r.eraseGroup i).Refines d live (grouped.filter (· ≠ i))
      (a.eraseGroup (r.slot i).serial) where
  layout := h.layout.eraseGroup i
  roster := by rw [← h.roster, h.layout.roster_eraseGroup hi]
  process j hj := h.process j (List.mem_of_mem_filter hj)

theorem finish (h : r.Refines d live grouped a) (hi : i ∈ live) (hg : i ∉ grouped) :
    (r.updateState i fun _ => .terminated).Refines d live grouped
      (a.updateState (r.slot i).serial fun _ => .terminated) where
  layout := h.layout.updateState i _
  roster := by rw [← h.roster, h.layout.roster_updateState hi]
  process j hj := by
    rw [slot_updateState_of_ne (ne_of_mem_of_not_mem hj hg)]
    exact h.process j hj

theorem release (h : r.Refines d live grouped a) (hi : i ∈ live) (hg : i ∉ grouped) :
    (r.release i).Refines d (live.filter (· ≠ i)) grouped (a.release (r.slot i).serial) where
  layout := h.layout.release hi hg
  roster := by rw [← h.roster, h.layout.roster_release hi]
  process j hj := by
    rw [slot_release_of_ne (ne_of_mem_of_not_mem hj hg)]
    exact h.process j hj

theorem reclaim (h : r.Refines d live grouped a) :
    Agree d (r.perform .reclaim) (a.perform d.capacity d.maxRunId .reclaim) := by
  have unended : ∀ i ∈ grouped, (r.slot i).state ≠ .terminated := fun i hi =>
    RunState.ne_terminated (h.process i hi)
  obtain ⟨left, slots, _⟩ := h.layout.reclaim unended
  have same := h.layout.roster_reclaim unended
  rw [h.roster] at same
  simp only [perform, Roster.perform, ← same]
  refine ⟨rfl, _, grouped, left, rfl, fun j hj => ?_⟩
  rw [slots j (h.layout.grouped_live j hj) (unended j hj)]
  exact h.process j hj

theorem perform (h : r.Refines d live grouped a) (op : Operation) :
    Agree d (r.perform op) (a.perform d.capacity d.maxRunId op) := by
  cases op with
  | allocate m => exact h.allocate m
  | insertGroup id children =>
    refine h.withSlot id fun i hi => ?_
    by_cases starting : (r.slot i).state = .starting
    · rw [if_pos starting, if_pos starting]
      exact ⟨rfl, live, i :: grouped, h.insertGroup hi starting children⟩
    · rw [if_neg starting, if_neg starting]
      exact h.refused
  | eraseGroup id =>
    refine h.withSlot id fun i hi => ?_
    rw [h.contains_indexed hi]
    exact ⟨rfl, live, _, h.eraseGroup hi⟩
  | finish id =>
    refine h.withSlot id fun i hi => ?_
    rw [h.contains_indexed hi]
    exact ⟨rfl, live, _, (h.eraseGroup hi).finish hi (by simp)⟩
  | release id =>
    refine h.withSlot id fun i hi => ?_
    rw [h.contains_indexed hi]
    by_cases hg : r.isGrouped i
    · rw [if_pos hg, if_pos hg]
      exact h.refused
    · rw [if_neg hg, if_neg hg]
      exact ⟨rfl, _, grouped, h.release hi fun hm => hg (h.layout.isGrouped_iff.mpr hm)⟩
  | reclaim => exact h.reclaim

theorem performAll (h : r.Refines d live grouped a) (ops : List Operation) :
    (r.performAll ops).2 = (a.performAll d.capacity d.maxRunId ops).2 ∧
    ∃ live grouped, (r.performAll ops).1.Refines d live grouped
      (a.performAll d.capacity d.maxRunId ops).1 := by
  induction ops generalizing r a live grouped with
  | nil => exact ⟨rfl, live, grouped, h⟩
  | cons op ops ih =>
    obtain ⟨answer, _, _, next⟩ := h.perform op
    obtain ⟨answers, last⟩ := ih next
    exact ⟨congrArg₂ List.cons answer answers, last⟩

theorem answersLike (h : r.Refines d live grouped a) : r.AnswersLike a d.buckets where
  lookupRunId id := by rw [h.layout.lookupRunId_eq, h.roster]
  lookupGroup group := by rw [h.layout.lookupGroup_eq, h.roster]
  toList := by
    rw [h.layout.toList_eq, h.roster]
    rfl
  size := by rw [h.layout.size_eq, h.roster]

end Refines

/-- After any operations the registry answers like the roster that went through the same ones: to
the operations themselves, and to every question. -/
theorem performAll_refines {capacity buckets : UInt64} {maxRunId : UInt32}
    (created : create capacity maxRunId buckets = .ok r) (ops : List Operation) :
    (r.performAll ops).2 = (Roster.empty.performAll capacity.toNat maxRunId ops).2 ∧
    (r.performAll ops).1.AnswersLike (Roster.empty.performAll capacity.toNat maxRunId ops).1
      buckets.toNat := by
  obtain ⟨d, hcapacity, hmax, hbuckets, rfl⟩ := create_eq_ok created
  rw [← hcapacity, ← hmax, ← hbuckets]
  obtain ⟨answers, _, _, last⟩ := (refines_empty d).performAll ops
  exact ⟨answers, last.answersLike⟩

def crowded : List Operation :=
  let m : Manifest := ⟨.null, "notes"⟩
  [.allocate m, .allocate m, .allocate m, .allocate m,
  .insertGroup ⟨1⟩ ⟨⟨-7⟩, ⟨-7⟩⟩, .insertGroup ⟨2⟩ ⟨⟨-7⟩, ⟨8⟩⟩, .insertGroup ⟨3⟩ ⟨⟨9⟩, ⟨9⟩⟩,
  .finish ⟨2⟩, .reclaim, .release ⟨1⟩, .eraseGroup ⟨1⟩, .release ⟨1⟩,
  .allocate m, .allocate m, .release ⟨0⟩]

theorem performAll_refines_crowded :
    ((empty 3 4 2).performAll crowded).2 = (Roster.empty.performAll 3 4 crowded).2 ∧
    ((empty 3 4 2).performAll crowded).1.AnswersLike (Roster.empty.performAll 3 4 crowded).1 2 :=
  performAll_refines (show create 3 4 2 = .ok (empty 3 4 2) from rfl) crowded

end Registry
end AppSupervisor
