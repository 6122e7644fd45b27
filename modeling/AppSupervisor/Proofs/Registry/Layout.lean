import AppSupervisor.Proofs.Index.Holds
import AppSupervisor.Registry.Basic
import Mathlib.Data.List.Pairwise

namespace AppSupervisor

theorem find?_eq_some_of_unique {α : Type} {p : α → Bool} {xs : List α} {x : α} (hx : x ∈ xs)
    (hp : p x) (unique : ∀ y ∈ xs, p y → y = x) : xs.find? p = some x := by
  obtain ⟨y, hy⟩ := Option.isSome_iff_exists.mp (List.find?_isSome.mpr ⟨x, hx, hp⟩)
  rw [hy, unique y (List.mem_of_find?_eq_some hy) (List.find?_some hy)]

structure Measures where
  capacity : Nat
  maxRunId : UInt32
  buckets : Nat
  capacity_pos : 0 < capacity
  capacity_le : capacity ≤ maxRunId.toNat
  buckets_pos : 0 < buckets

namespace Measures

def bucket (d : Measures) (key : UInt32) : Nat := key.toNat &&& (d.buckets - 1)

theorem bucket_lt (d : Measures) (key : UInt32) : d.bucket key < d.buckets := by
  have le : d.bucket key ≤ d.buckets - 1 := Nat.and_le_right
  have pos := d.buckets_pos
  omega

end Measures

namespace Registry

/-- The slots in use: `live` by age, the newest first, and of those the ones indexed by process
group, `grouped`, the one indexed last first. -/
structure Layout (d : Measures) (r : Registry) (live grouped : List Nat) : Prop where
  slots_size : r.slots.size = d.capacity
  maxRunId_eq : r.maxRunId = d.maxRunId
  runIdNext_size : r.byRunId.next.size = d.capacity
  groupNext_size : r.byGroup.next.size = d.capacity
  runIdHeads_size : r.byRunId.heads.size = d.buckets
  groupHeads_size : r.byGroup.heads.size = d.buckets
  byRunId : r.byRunId.Holds (fun i => d.bucket (r.slot i).runId.val) live
  byGroup : r.byGroup.Holds (fun i => d.bucket (r.slot i).leader.val.toUInt32) grouped
  grouped_live : ∀ i ∈ grouped, i ∈ live
  partition : (live ++ r.free).Perm (List.range d.capacity)
  live_eq : r.live = live.length
  runId_inj : ∀ i ∈ live, ∀ j ∈ live, (r.slot i).runId = (r.slot j).runId → i = j
  runId_range : ∀ i ∈ live, 1 ≤ (r.slot i).runId.toNat ∧ (r.slot i).runId.toNat ≤ d.maxRunId.toNat
  serial_lt : ∀ i ∈ live, (r.slot i).serial < r.allocations
  serials : live.Pairwise fun i j => (r.slot j).serial < (r.slot i).serial

@[simp] theorem slot_modifySlot (r : Registry) (i j : Nat) (f : Runner → Runner) :
    (r.modifySlot i f).slot j = if i = j ∧ i < r.slots.size then f (r.slot j) else r.slot j := by
  simp only [modifySlot, slot, Array.getD_eq_getD_getElem?, Array.getElem?_modify]
  grind

variable {d : Measures} {r : Registry} {live grouped : List Nat} {i j : Nat}

theorem slot_modifySlot_self (hi : i < r.slots.size) (f : Runner → Runner) :
    (r.modifySlot i f).slot i = f (r.slot i) := by
  rw [slot_modifySlot, if_pos ⟨rfl, hi⟩]

theorem slot_modifySlot_of_ne (hne : j ≠ i) (f : Runner → Runner) :
    (r.modifySlot i f).slot j = r.slot j := by
  rw [slot_modifySlot, if_neg fun he => hne he.1.symm]

theorem slot_eq_getElem (hi : i < r.slots.size) : r.slot i = r.slots[i] := by
  simp [slot, hi]

theorem lookupRunId_of_slot {id : RunId} (found : r.slotOfRunId? id = some i) :
    r.lookupRunId id = some (r.slot i) := by
  rw [lookupRunId, found, Option.map_some]

namespace Layout

theorem live_nodup (h : r.Layout d live grouped) : live.Nodup := h.byRunId.nodup

theorem grouped_nodup (h : r.Layout d live grouped) : grouped.Nodup := h.byGroup.nodup

theorem all_nodup (h : r.Layout d live grouped) : (live ++ r.free).Nodup :=
  h.partition.nodup_iff.mpr List.nodup_range

theorem lt_iff (h : r.Layout d live grouped) : i < d.capacity ↔ i ∈ live ∨ i ∈ r.free := by
  rw [← List.mem_range, ← h.partition.mem_iff, List.mem_append]

theorem lt_of_mem (h : r.Layout d live grouped) (hi : i ∈ live) : i < d.capacity :=
  h.lt_iff.mpr (Or.inl hi)

theorem lt_size (h : r.Layout d live grouped) (hi : i ∈ live) : i < r.slots.size :=
  h.slots_size ▸ h.lt_of_mem hi

theorem maxRunId_pos (h : r.Layout d live grouped) : 0 < r.maxRunId.toNat := by
  have pos := d.capacity_pos
  have le := d.capacity_le
  rw [h.maxRunId_eq]
  omega

theorem not_mem_live (h : r.Layout d live grouped) (hi : i ∈ r.free) : i ∉ live := fun hl =>
  (List.nodup_append'.mp h.all_nodup).2.2 hl hi

theorem mem_live (h : r.Layout d live grouped) :
    i ∈ live ↔ i < d.capacity ∧ i ∉ r.free := by
  constructor
  · exact fun hi => ⟨h.lt_of_mem hi, fun hf => h.not_mem_live hf hi⟩
  · rintro ⟨lt, hf⟩
    exact (h.lt_iff.mp lt).resolve_right hf

theorem length_add (h : r.Layout d live grouped) : live.length + r.free.length = d.capacity := by
  simpa using h.partition.length_eq

theorem exists_free (h : r.Layout d live grouped) (room : r.live < d.capacity) :
    ∃ i free, r.free = i :: free := by
  refine List.exists_cons_of_ne_nil fun empty => ?_
  have all := h.length_add
  rw [empty, ← h.live_eq, List.length_nil] at all
  omega

theorem serial_inj (h : r.Layout d live grouped) (hi : i ∈ live) (hj : j ∈ live)
    (same : (r.slot i).serial = (r.slot j).serial) : i = j := by
  by_contra hne
  have apart : live.Pairwise fun i j => (r.slot i).serial ≠ (r.slot j).serial :=
    h.serials.imp fun hlt => Nat.ne_of_gt hlt
  have : Std.Symm fun i j => (r.slot i).serial ≠ (r.slot j).serial := ⟨fun _ _ hs => hs.symm⟩
  exact apart.forall hi hj hne same

theorem runIdBucket_eq (h : r.Layout d live grouped) (id : RunId) :
    r.runIdBucket id = d.bucket id.val := by
  simp only [runIdBucket, Index.bucket, h.runIdHeads_size, Measures.bucket]

theorem groupBucket_eq (h : r.Layout d live grouped) (leader : Pid) :
    r.groupBucket leader = d.bucket leader.val.toUInt32 := by
  simp only [groupBucket, Index.bucket, h.groupHeads_size, Measures.bucket]

theorem slotOfRunId?_eq (h : r.Layout d live grouped) (id : RunId) :
    r.slotOfRunId? id = live.find? fun i => (r.slot i).runId = id := by
  refine h.byRunId.find?_chain fun i _ hi => ?_
  rw [h.runIdBucket_eq, of_decide_eq_true hi]

theorem slotOfGroup?_eq (h : r.Layout d live grouped) (group : Pid) :
    r.slotOfGroup? group = grouped.find? fun i => (r.slot i).leader = group := by
  refine h.byGroup.find?_chain fun i _ hi => ?_
  rw [h.groupBucket_eq, of_decide_eq_true hi]

theorem slotOfRunId?_eq_some (h : r.Layout d live grouped) {id : RunId} :
    r.slotOfRunId? id = some i ↔ i ∈ live ∧ (r.slot i).runId = id := by
  rw [h.slotOfRunId?_eq]
  constructor
  · intro found
    exact ⟨List.mem_of_find?_eq_some found, by simpa using List.find?_some found⟩
  · rintro ⟨hi, rfl⟩
    refine find?_eq_some_of_unique hi (by simp) fun j hj same => ?_
    exact h.runId_inj j hj i hi (by simpa using same)

theorem lookupRunId_slot (h : r.Layout d live grouped) (hi : i ∈ live) :
    r.lookupRunId (r.slot i).runId = some (r.slot i) :=
  lookupRunId_of_slot (h.slotOfRunId?_eq_some.mpr ⟨hi, rfl⟩)

theorem mem_of_slotOfGroup? (h : r.Layout d live grouped) {group : Pid}
    (found : r.slotOfGroup? group = some i) : i ∈ grouped ∧ (r.slot i).leader = group := by
  rw [h.slotOfGroup?_eq] at found
  exact ⟨List.mem_of_find?_eq_some found, by simpa using List.find?_some found⟩

theorem mem_of_slotOfPid? (h : r.Layout d live grouped) {groupOf : Pid → Option Pid} {pid : Pid}
    (found : r.slotOfPid? groupOf pid = some i) :
    i ∈ grouped ∧ ((r.slot i).leader = pid ∨
      groupOf pid = some (r.slot i).leader ∧ (r.slot i).app = pid) := by
  rcases Option.or_eq_some_iff.mp found with first | ⟨_, second⟩
  · obtain ⟨hi, leads⟩ := h.mem_of_slotOfGroup? first
    exact ⟨hi, Or.inl leads⟩
  · obtain ⟨hbind, happ⟩ := Option.filter_eq_some_iff.mp second
    obtain ⟨group, hgroup, hslot⟩ := Option.bind_eq_some_iff.mp hbind
    obtain ⟨hi, leads⟩ := h.mem_of_slotOfGroup? hslot
    exact ⟨hi, Or.inr ⟨leads ▸ hgroup, by simpa using happ⟩⟩

end Layout
end Registry
end AppSupervisor
