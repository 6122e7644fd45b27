import AppSupervisor.Proofs.Index.Visit
import AppSupervisor.Proofs.Registry.Admission
import AppSupervisor.Proofs.Registry.Layout
import AppSupervisor.Proofs.Registry.Ring

namespace AppSupervisor.Registry

variable {d : Measures} {r r' : Registry} {live grouped : List Nat} {i j : Nat}

theorem create_eq_ok {capacity buckets : UInt64} {maxRunId : UInt32}
    (h : create capacity maxRunId buckets = .ok r) :
    ∃ d : Measures, d.capacity = capacity.toNat ∧ d.maxRunId = maxRunId ∧
      d.buckets = buckets.toNat ∧ r = empty capacity.toNat maxRunId buckets.toNat := by
  by_cases admits : Admits capacity maxRunId buckets
  · rw [create_of_admits admits] at h
    split at h
    next =>
      obtain ⟨k, power⟩ := admits.power
      have pos : 0 < buckets.toNat := power ▸ Nat.two_pow_pos k
      exact ⟨⟨_, _, _, admits.pos, admits.room, pos⟩, rfl, rfl, rfl, (Except.ok.inj h).symm⟩
    next => cases h
  · obtain ⟨a, rejected⟩ := create_of_not_admits admits
    rw [rejected] at h
    cases h

theorem layout_empty (d : Measures) :
    (empty d.capacity d.maxRunId d.buckets).Layout d [] [] where
  slots_size := by simp [empty]
  maxRunId_eq := rfl
  runIdNext_size := by simp [empty, Index.create]
  groupNext_size := by simp [empty, Index.create]
  runIdHeads_size := by simp [empty, Index.create]
  groupHeads_size := by simp [empty, Index.create]
  byRunId := Index.holds_create _ _ _
  byGroup := Index.holds_create _ _ _
  grouped_live := by simp
  partition := by simp [empty]
  live_eq := rfl
  runId_inj := by simp
  runId_range := by simp
  serial_lt := by simp
  serials := List.Pairwise.nil

theorem slot_updateState (r : Registry) (i j : Nat) (f : RunState → RunState) :
    (r.updateState i f).slot j =
      if i = j ∧ i < r.slots.size then { r.slot j with state := f (r.slot j).state }
      else r.slot j :=
  slot_modifySlot r i j _

theorem slot_updateState_of_ne (hne : j ≠ i) (f : RunState → RunState) :
    (r.updateState i f).slot j = r.slot j :=
  slot_modifySlot_of_ne hne _

@[simp] theorem serial_updateState (r : Registry) (i j : Nat) (f : RunState → RunState) :
    ((r.updateState i f).slot j).serial = (r.slot j).serial := by
  rw [slot_updateState]
  split <;> rfl

theorem slot_transition (r : Registry) (i j : Nat) (before after : RunState) :
    (r.transition i before after).slot j =
      { r.slot j with state := ((r.transition i before after).slot j).state } := by
  rw [transition, slot_updateState]
  split <;> rfl

theorem leader_transition (r : Registry) (i j : Nat) (before after : RunState) :
    ((r.transition i before after).slot j).leader = (r.slot j).leader := by
  rw [slot_transition]

theorem transition_eq_self {before after : RunState} (left : (r.slot i).state ≠ before) :
    r.transition i before after = r := by
  have slots : (r.transition i before after).slots = r.slots := by
    refine Array.ext (by simp [transition, updateState, modifySlot]) fun j _ hj => ?_
    simp only [transition, updateState, modifySlot, Array.getElem_modify]
    split
    next he =>
      subst he
      rw [slot_eq_getElem hj] at left
      simp [left]
    next => rfl
  have same : r.transition i before after =
      { r with slots := (r.transition i before after).slots } := rfl
  rw [same, slots]

theorem Layout.modifySlot (h : r.Layout d live grouped) {f : Runner → Runner}
    (runId : (f (r.slot i)).runId = (r.slot i).runId)
    (serial : (f (r.slot i)).serial = (r.slot i).serial)
    (leader : i ∈ grouped → (f (r.slot i)).leader = (r.slot i).leader) :
    (r.modifySlot i f).Layout d live grouped := by
  have runIds : ∀ j, ((r.modifySlot i f).slot j).runId = (r.slot j).runId := by
    intro j
    rw [slot_modifySlot]
    split
    next he => rw [← he.1, runId]
    next => rfl
  have serials : ∀ j, ((r.modifySlot i f).slot j).serial = (r.slot j).serial := by
    intro j
    rw [slot_modifySlot]
    split
    next he => rw [← he.1, serial]
    next => rfl
  have leaders : ∀ j ∈ grouped, ((r.modifySlot i f).slot j).leader = (r.slot j).leader := by
    intro j hj
    rw [slot_modifySlot]
    split
    next he => rw [← he.1, leader (he.1 ▸ hj)]
    next => rfl
  exact {
    slots_size := by simpa [Registry.modifySlot] using h.slots_size
    maxRunId_eq := h.maxRunId_eq
    runIdNext_size := h.runIdNext_size
    groupNext_size := h.groupNext_size
    runIdHeads_size := h.runIdHeads_size
    groupHeads_size := h.groupHeads_size
    byRunId := h.byRunId.congr fun j _ => by rw [runIds]
    byGroup := h.byGroup.congr fun j hj => by rw [leaders j hj]
    grouped_live := h.grouped_live
    partition := h.partition
    live_eq := h.live_eq
    runId_inj := by simpa only [runIds] using h.runId_inj
    runId_range := by simpa only [runIds] using h.runId_range
    serial_lt := fun j hj => (serials j).symm ▸ h.serial_lt j hj
    serials := by simpa only [serials] using h.serials }

theorem Layout.updateState (h : r.Layout d live grouped) (i : Nat) (f : RunState → RunState) :
    (r.updateState i f).Layout d live grouped :=
  h.modifySlot rfl rfl fun _ => rfl

/-- What an allocation did: it took the first free slot for a run id that was not in use. -/
structure Allocates (r : Registry) (m : Manifest) (r' : Registry) (i : Nat) : Prop where
  room : r.live < r.capacity
  unused : r.unusedRunId? (r.live + 1) r.lastRunId = some r'.lastRunId
  free : r.free = i :: r'.free
  slots : r'.slots = r.slots.modify i fun _ =>
    ⟨⟨r'.lastRunId⟩, ⟨0⟩, ⟨0⟩, .starting, some m, r.allocations⟩
  byRunId : r'.byRunId = r.byRunId.insert (r.runIdBucket ⟨r'.lastRunId⟩) i
  byGroup : r'.byGroup = r.byGroup.cut i
  maxRunId : r'.maxRunId = r.maxRunId
  live : r'.live = r.live + 1
  allocations : r'.allocations = r.allocations + 1

theorem allocate_eq_ok {m : Manifest} (h : r.allocate m = .ok (r', i)) : r.Allocates m r' i := by
  unfold allocate at h
  split at h
  next => cases h
  next hroom =>
    split at h
    next id j free hid hfree =>
      obtain ⟨rfl, rfl⟩ := Prod.mk.inj (Except.ok.inj h)
      exact ⟨by omega, hid, hfree, rfl, rfl, rfl, rfl, rfl, rfl⟩
    next => cases h

namespace Allocates

variable {m : Manifest}

theorem slot_of_ne (a : r.Allocates m r' i) (hne : j ≠ i) : r'.slot j = r.slot j := by
  simp only [slot, a.slots, Array.getD_eq_getD_getElem?, Array.getElem?_modify, if_neg hne.symm]

theorem slot_self (a : r.Allocates m r' i) (hi : i < r.slots.size) :
    r'.slot i = ⟨⟨r'.lastRunId⟩, ⟨0⟩, ⟨0⟩, .starting, some m, r.allocations⟩ := by
  simp [slot, a.slots, Array.getD_eq_getD_getElem?, Array.getElem_modify, hi]

end Allocates

section

variable {m : Manifest} (h : r.Layout d live grouped) (a : r.Allocates m r' i)

include h a

theorem Layout.free_of_allocates : i < d.capacity ∧ i ∉ live := by
  have hi : i ∈ r.free := by simp [a.free]
  exact ⟨h.lt_iff.mpr (Or.inr hi), h.not_mem_live hi⟩

theorem Layout.slot_allocated :
    r'.slot i = ⟨⟨r'.lastRunId⟩, ⟨0⟩, ⟨0⟩, .starting, some m, r.allocations⟩ :=
  a.slot_self (h.slots_size ▸ (h.free_of_allocates a).1)

theorem Layout.slot_allocate (hj : j ∈ live) : r'.slot j = r.slot j :=
  a.slot_of_ne (ne_of_mem_of_not_mem hj (h.free_of_allocates a).2)

theorem Layout.allocate : r'.Layout d (i :: live) grouped := by
  obtain ⟨lt, hi⟩ := h.free_of_allocates a
  have hg : i ∉ grouped := fun hm => hi (h.grouped_live i hm)
  obtain ⟨unused, range⟩ := unusedRunId?_eq_some h.maxRunId_pos a.unused
  have self := h.slot_allocated a
  have other : ∀ j ∈ live, r'.slot j = r.slot j := fun j hj => h.slot_allocate a hj
  have fresh : ∀ j ∈ live, (r.slot j).runId ≠ ⟨r'.lastRunId⟩ := by
    intro j hj same
    simp [h.slotOfRunId?_eq_some.mpr ⟨hj, same⟩] at unused
  have old : r.byRunId.Holds (fun j => d.bucket (r'.slot j).runId.val) live :=
    h.byRunId.congr fun j hj => by rw [other j hj]
  have inserted := old.insert hi (h.runIdNext_size ▸ lt) (h.runIdHeads_size ▸ d.bucket_lt _)
  exact {
    slots_size := by simpa [a.slots] using h.slots_size
    maxRunId_eq := a.maxRunId.trans h.maxRunId_eq
    runIdNext_size := by simpa [a.byRunId, Index.insert] using h.runIdNext_size
    groupNext_size := by simpa [a.byGroup, Index.cut] using h.groupNext_size
    runIdHeads_size := by simpa [a.byRunId, Index.insert] using h.runIdHeads_size
    groupHeads_size := by simpa [a.byGroup, Index.cut] using h.groupHeads_size
    byRunId := by
      rw [self] at inserted
      rw [a.byRunId, h.runIdBucket_eq]
      exact inserted
    byGroup := by
      rw [a.byGroup]
      refine (h.byGroup.detach (Index.detaches_cut _ i) hg).congr fun j hj => ?_
      rw [other j (h.grouped_live j hj)]
    grouped_live := fun j hj => List.mem_cons_of_mem i (h.grouped_live j hj)
    partition := by
      refine List.Perm.trans ?_ h.partition
      rw [a.free]
      exact List.perm_middle.symm
    live_eq := by rw [a.live, h.live_eq, List.length_cons]
    runId_inj := by
      intro j hj k hk same
      rcases List.mem_cons.mp hj with rfl | hjl <;> rcases List.mem_cons.mp hk with rfl | hkl
      · rfl
      · rw [self, other k hkl] at same
        exact absurd same.symm (fresh k hkl)
      · rw [self, other j hjl] at same
        exact absurd same (fresh j hjl)
      · rw [other j hjl, other k hkl] at same
        exact h.runId_inj j hjl k hkl same
    runId_range := by
      intro j hj
      rcases List.mem_cons.mp hj with rfl | hj
      · rw [self, ← h.maxRunId_eq]
        exact range
      · exact other j hj ▸ h.runId_range j hj
    serial_lt := by
      intro j hj
      rw [a.allocations]
      rcases List.mem_cons.mp hj with rfl | hj
      · simp [self]
      · exact other j hj ▸ Nat.lt_succ_of_lt (h.serial_lt j hj)
    serials := by
      refine List.pairwise_cons.mpr ⟨fun j hj => ?_, h.serials.imp_of_mem fun {a b} ha hb hs => ?_⟩
      · rw [self, other j hj]
        exact h.serial_lt j hj
      · rwa [other a ha, other b hb] }

end

theorem slot_insertGroup (r : Registry) (i j : Nat) (children : Children) :
    (r.insertGroup i children).slot j =
      if i = j ∧ i < r.slots.size then
        { r.slot j with leader := children.leader, app := children.app, state := .running }
      else r.slot j :=
  slot_modifySlot r i j _

theorem slot_insertGroup_of_ne (hne : j ≠ i) (children : Children) :
    (r.insertGroup i children).slot j = r.slot j :=
  slot_modifySlot_of_ne hne _

@[simp] theorem serial_insertGroup (r : Registry) (i j : Nat) (children : Children) :
    ((r.insertGroup i children).slot j).serial = (r.slot j).serial := by
  rw [slot_insertGroup]
  split <;> rfl

theorem Layout.insertGroup (h : r.Layout d live grouped) (hi : i ∈ live) (hg : i ∉ grouped)
    (children : Children) : (r.insertGroup i children).Layout d live (i :: grouped) := by
  obtain ⟨m, hm⟩ : ∃ m, m = r.modifySlot i fun s =>
      { s with leader := children.leader, app := children.app, state := .running } := ⟨_, rfl⟩
  have lt : i < d.capacity := h.lt_of_mem hi
  have modified : m.Layout d live grouped :=
    hm ▸ h.modifySlot rfl rfl fun mem => absurd mem hg
  have leader : (m.slot i).leader = children.leader := by
    rw [hm, slot_modifySlot_self (h.lt_size hi)]
  have inserted := modified.byGroup.insert hg (modified.groupNext_size ▸ lt)
    (modified.groupHeads_size ▸ d.bucket_lt _)
  have result : r.insertGroup i children =
      { m with byGroup := m.byGroup.insert (d.bucket (m.slot i).leader.val.toUInt32) i } := by
    rw [leader, ← modified.groupBucket_eq, hm]
    rfl
  rw [result]
  exact { modified with
    groupNext_size := by simpa [Index.insert] using modified.groupNext_size
    groupHeads_size := by simpa [Index.insert] using modified.groupHeads_size
    byGroup := inserted
    grouped_live := by
      intro j hj
      rcases List.mem_cons.mp hj with rfl | hj
      · exact hi
      · exact h.grouped_live j hj }

@[simp] theorem slot_eraseGroup (r : Registry) (i j : Nat) :
    (r.eraseGroup i).slot j = r.slot j := rfl

theorem Layout.erase?_byGroup (h : r.Layout d live grouped) (hi : i ∈ grouped) :
    ∃ y, r.byGroup.erase? (r.groupBucket (r.slot i).leader) i = some y ∧
      y.Holds (fun i => d.bucket (r.slot i).leader.val.toUInt32) (grouped.filter (· ≠ i)) := by
  rw [h.groupBucket_eq]
  exact h.byGroup.erase hi

theorem Layout.eraseGroup (h : r.Layout d live grouped) (i : Nat) :
    (r.eraseGroup i).Layout d live (grouped.filter (· ≠ i)) := by
  by_cases hi : i ∈ grouped
  · obtain ⟨y, hy, holds⟩ := h.erase?_byGroup hi
    have detaches := Index.detaches_erase? hy
    have result : r.eraseGroup i = { r with byGroup := y } := by
      simp only [Registry.eraseGroup, hy, Option.getD_some]
    rw [result]
    exact { h with
      groupNext_size := detaches.next_size.trans h.groupNext_size
      groupHeads_size := detaches.heads_size.trans h.groupHeads_size
      byGroup := holds
      grouped_live := fun j hj => h.grouped_live j (List.mem_of_mem_filter hj) }
  · have result : r.eraseGroup i = r := by
      simp only [Registry.eraseGroup, h.byGroup.erase?_eq_none hi, Option.getD_none]
    rw [result, Index.filter_ne_eq_self hi]
    exact h

theorem slot_release (r : Registry) (i j : Nat) :
    (r.release i).slot j =
      if i = j ∧ i < r.slots.size then
        { r.slot j with runId := ⟨0⟩, state := .terminated, manifest := none }
      else r.slot j :=
  slot_modifySlot _ i j _

theorem slot_release_of_ne (hne : j ≠ i) : (r.release i).slot j = r.slot j :=
  slot_modifySlot_of_ne hne _

theorem slot_release_of_mem (hj : j ∈ live.filter (· ≠ i)) : (r.release i).slot j = r.slot j :=
  slot_release_of_ne (by simpa using (List.mem_filter.mp hj).2)

@[simp] theorem serial_release (r : Registry) (i j : Nat) :
    ((r.release i).slot j).serial = (r.slot j).serial := by
  rw [slot_release]
  split <;> rfl

theorem detaches_release (r : Registry) (i : Nat) :
    r.byRunId.Detaches (r.release i).byRunId i := by
  have erased : r.byRunId.Detaches
      ((r.byRunId.erase? (r.runIdBucket (r.slot i).runId) i).getD r.byRunId) i := by
    cases hy : r.byRunId.erase? (r.runIdBucket (r.slot i).runId) i with
    | none => exact .refl _ i
    | some y => exact Index.detaches_erase? hy
  exact erased.trans (Index.detaches_cut _ i)

/-- A slot that is given back is the next one to be used. -/
theorem Layout.release (h : r.Layout d live grouped) (hi : i ∈ live) (hg : i ∉ grouped) :
    (r.release i).Layout d (live.filter (· ≠ i)) grouped := by
  have lt : i < d.capacity := h.lt_of_mem hi
  have other : ∀ j ∈ live.filter (· ≠ i), (r.release i).slot j = r.slot j := fun j hj =>
    slot_release_of_mem hj
  have sub : ∀ j ∈ live.filter (· ≠ i), j ∈ live := fun j hj => List.mem_of_mem_filter hj
  have erased : live.filter (· ≠ i) = live.erase i := by
    rw [List.Nodup.erase_eq_filter h.live_nodup]
    simp only [bne, beq_eq_decide, ne_eq, decide_not]
  have detaches := detaches_release r i
  obtain ⟨y, hy, holds⟩ := h.byRunId.erase hi
  have index : (r.release i).byRunId = y.cut i := by
    simp only [Registry.release, Registry.modifySlot, h.runIdBucket_eq, hy, Option.getD_some]
  exact {
    slots_size := by simpa [Registry.release, Registry.modifySlot] using h.slots_size
    maxRunId_eq := h.maxRunId_eq
    runIdNext_size := detaches.next_size.trans h.runIdNext_size
    groupNext_size := h.groupNext_size
    runIdHeads_size := detaches.heads_size.trans h.runIdHeads_size
    groupHeads_size := h.groupHeads_size
    byRunId := by
      rw [index]
      have cut := holds.detach (Index.detaches_cut y i) (by simp)
      exact cut.congr fun j hj => by rw [other j hj]
    byGroup := h.byGroup.congr fun j hj => by
      rw [slot_release_of_ne (ne_of_mem_of_not_mem hj hg)]
    grouped_live := fun j hj =>
      List.mem_filter.mpr ⟨h.grouped_live j hj, by simpa using ne_of_mem_of_not_mem hj hg⟩
    partition := by
      have moved : (live.filter (· ≠ i) ++ i :: r.free).Perm (live ++ r.free) := by
        rw [erased]
        refine List.perm_middle.trans ?_
        exact ((List.perm_cons_erase hi).symm.append_right r.free)
      exact moved.trans h.partition
    live_eq := by
      show r.live - 1 = _
      rw [erased, List.length_erase_of_mem hi, h.live_eq]
    runId_inj := fun a ha b hb => by
      rw [other a ha, other b hb]
      exact h.runId_inj a (sub a ha) b (sub b hb)
    runId_range := fun j hj => other j hj ▸ h.runId_range j (sub j hj)
    serial_lt := fun j hj => other j hj ▸ h.serial_lt j (sub j hj)
    serials := (h.serials.filter _).imp_of_mem fun {a b} ha hb hs => by
      rwa [other a ha, other b hb] }

end AppSupervisor.Registry
