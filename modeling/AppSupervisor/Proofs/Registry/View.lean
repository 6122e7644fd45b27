import AppSupervisor.Proofs.Registry.Reclaim

namespace AppSupervisor

theorem Roster.reclaim_eq (a : Roster) :
    a.reclaim = ({ a with runners := a.runners.filter (·.state ≠ .terminated) },
      (a.runners.filter (·.state = .terminated)).length) := by
  simp only [reclaim, List.partition_eq_filter_filter, ne_eq, decide_not]
  rfl

namespace Registry

def roster (r : Registry) (live grouped : List Nat) : Roster :=
  ⟨live.map r.slot, grouped.map fun i => (r.slot i).serial, r.lastRunId, r.allocations⟩

theorem lookupPid_eq_or (groupOf : Pid → Option Pid) (r : Registry) (pid : Pid) :
    r.lookupPid groupOf pid =
      (r.lookupGroup pid).or (((groupOf pid).bind r.lookupGroup).filter (·.app = pid)) := by
  simp only [lookupPid, slotOfPid?, lookupGroup, Option.map_or]
  refine congrArg _ ?_
  cases groupOf pid with
  | none => rfl
  | some group =>
    simp only [Option.bind_some, lookupGroup, Option.filter_map, Function.comp_def]

namespace Layout

variable {d : Measures} {r r' : Registry} {live grouped : List Nat} {i : Nat} {m : Manifest}

theorem find?_roster (h : r.Layout d live grouped) (hi : i ∈ live) :
    (r.roster live grouped).find? (r.slot i).serial = some (r.slot i) := by
  refine find?_eq_some_of_unique (List.mem_map_of_mem hi) (by simp) fun s hs same => ?_
  obtain ⟨j, hj, rfl⟩ := List.mem_map.mp hs
  rw [h.serial_inj hj hi (by simpa using same)]

theorem grouped_roster (h : r.Layout d live grouped) :
    (r.roster live grouped).grouped = grouped.map r.slot := by
  have found : ∀ i ∈ grouped, (r.roster live grouped).find? (r.slot i).serial = some (r.slot i) :=
    fun i hi => h.find?_roster (h.grouped_live i hi)
  simp only [Roster.grouped]
  show List.filterMap _ (grouped.map fun i => (r.slot i).serial) = _
  rw [List.filterMap_map]
  exact (List.filterMap_congr found).trans (congrFun List.filterMap_eq_map grouped)

theorem lookupRunId_eq (h : r.Layout d live grouped) (id : RunId) :
    r.lookupRunId id = (r.roster live grouped).lookupRunId id := by
  simp only [lookupRunId, h.slotOfRunId?_eq, Roster.lookupRunId, roster, List.find?_map,
    Function.comp_def]

theorem lookupGroup_eq (h : r.Layout d live grouped) (group : Pid) :
    r.lookupGroup group = (r.roster live grouped).lookupGroup group := by
  simp only [lookupGroup, h.slotOfGroup?_eq, Roster.lookupGroup, h.grouped_roster, List.find?_map,
    Function.comp_def]

theorem lookupPid_eq (h : r.Layout d live grouped) (groupOf : Pid → Option Pid) (pid : Pid) :
    r.lookupPid groupOf pid = (r.roster live grouped).lookupPid groupOf pid := by
  have groups : r.lookupGroup = (r.roster live grouped).lookupGroup := funext h.lookupGroup_eq
  rw [lookupPid_eq_or, groups, Roster.lookupPid]

theorem toList_eq (h : r.Layout d live grouped) :
    r.toList = (r.roster live grouped).toList d.buckets fun id => d.bucket id.val := by
  simp only [toList, Index.toList, Roster.toList, roster, h.runIdHeads_size, List.map_flatMap,
    h.byRunId.chain_eq, List.filter_map, Function.comp_def]

theorem size_eq (h : r.Layout d live grouped) : r.size = (r.roster live grouped).size := by
  simp only [size, Roster.size, roster, List.length_map, h.live_eq]

theorem slotOfRunId?_isNone (h : r.Layout d live grouped) (id : RunId) :
    (r.slotOfRunId? id).isNone = ((r.roster live grouped).lookupRunId id).isNone := by
  rw [← h.lookupRunId_eq, lookupRunId, Option.isNone_map]

theorem unusedRunId?_eq (h : r.Layout d live grouped) :
    r.unusedRunId? (r.live + 1) r.lastRunId =
      ((r.roster live grouped).unusedRunId? d.maxRunId).map RunId.val := by
  rw [unusedRunId?_eq_find? h.maxRunId_pos, h.maxRunId_eq]
  simp only [Roster.unusedRunId?, h.slotOfRunId?_isNone, ← h.size_eq]
  rfl

theorem roster_allocate (h : r.Layout d live grouped) (a : r.Allocates m r' i) :
    (r.roster live grouped).allocate d.capacity d.maxRunId m =
      .ok (r'.roster (i :: live) grouped, r.allocations) := by
  have room : ¬d.capacity ≤ (r.roster live grouped).size := by
    have := a.room
    rw [← h.size_eq, ← h.slots_size]
    simpa [capacity, size] using this
  have unused : (r.roster live grouped).unusedRunId? d.maxRunId = some ⟨r'.lastRunId⟩ := by
    have := h.unusedRunId?_eq.symm.trans a.unused
    obtain ⟨id, hid, hval⟩ := Option.map_eq_some_iff.mp this
    rw [hid, ← hval]
  have runners : live.map r'.slot = live.map r.slot := 
    List.map_congr_left fun j hj => h.slot_allocate a hj
  have indexed : grouped.map (fun j => (r'.slot j).serial) =
      grouped.map fun j => (r.slot j).serial :=
    List.map_congr_left fun j hj => by rw [h.slot_allocate a (h.grouped_live j hj)]
  simp only [Roster.allocate, if_neg room, unused]
  simp only [roster, List.map_cons, h.slot_allocated a, runners, indexed, a.allocations]

/-- The search of an allocation never fails in the middle: with room there is a free slot. -/
theorem roster_allocate_error (h : r.Layout d live grouped) {e : Error}
    (failed : r.allocate m = .error e) :
    (r.roster live grouped).allocate d.capacity d.maxRunId m = .error e := by
  have capacity : r.capacity = d.capacity := h.slots_size
  have size : r.live = (r.roster live grouped).size := h.size_eq
  have unused := h.unusedRunId?_eq
  unfold Registry.allocate at failed
  unfold Roster.allocate
  rw [capacity, size] at failed
  rw [size] at unused
  split at failed
  next full =>
    cases failed
    rw [if_pos full]
  next room =>
    rw [if_neg room]
    split at failed
    next => cases failed
    next none =>
      cases hid : (r.roster live grouped).unusedRunId? d.maxRunId with
      | none =>
        cases failed
        rfl
      | some id =>
        obtain ⟨i, free, hfree⟩ := h.exists_free (by omega)
        rw [hid] at unused
        exact absurd hfree (none _ _ _ unused)

theorem roster_modify (h : r.Layout d live grouped) (hi : i ∈ live) {f : Runner → Runner}
    (serial : ∀ s, (f s).serial = s.serial) :
    (r.modifySlot i f).roster live grouped =
      (r.roster live grouped).modify (r.slot i).serial f := by
  have serials : ∀ j, ((r.modifySlot i f).slot j).serial = (r.slot j).serial := by
    intro j
    rw [slot_modifySlot]
    split
    next => exact serial _
    next => rfl
  have runners : live.map (r.modifySlot i f).slot = (live.map r.slot).map fun s =>
      if s.serial = (r.slot i).serial then f s else s := by
    rw [List.map_map]
    refine List.map_congr_left fun j hj => ?_
    by_cases he : j = i
    · simp [he, slot_modifySlot_self (h.lt_size hi)]
    · have differ : (r.slot j).serial ≠ (r.slot i).serial := fun same =>
        he (h.serial_inj hj hi same)
      simp [slot_modifySlot_of_ne he, differ]
  simp only [roster, Roster.modify, runners, serials]
  rfl

theorem roster_updateState (h : r.Layout d live grouped) (hi : i ∈ live)
    (f : RunState → RunState) :
    (r.updateState i f).roster live grouped =
      (r.roster live grouped).updateState (r.slot i).serial f :=
  h.roster_modify hi fun _ => rfl

theorem roster_insertGroup (h : r.Layout d live grouped) (hi : i ∈ live) (children : Children) :
    (r.insertGroup i children).roster live (i :: grouped) =
      (r.roster live grouped).insertGroup (r.slot i).serial children := by
  have modified := h.roster_modify hi (f := fun s =>
    { s with leader := children.leader, app := children.app, state := .running }) fun _ => rfl
  simp only [Roster.insertGroup, ← modified]
  simp only [roster, List.map_cons, serial_insertGroup r i i]
  rfl

theorem roster_eraseGroup (h : r.Layout d live grouped) (hi : i ∈ live) :
    (r.eraseGroup i).roster live (grouped.filter (· ≠ i)) =
      (r.roster live grouped).eraseGroup (r.slot i).serial := by
  have nodup : (grouped.map fun j => (r.slot j).serial).Nodup := by
    refine List.Nodup.map_on (fun j hj k hk same => ?_) h.grouped_nodup
    exact h.serial_inj (h.grouped_live j hj) (h.grouped_live k hk) same
  have same : (grouped.filter (· ≠ i)).map (fun j => (r.slot j).serial) =
      (grouped.map fun j => (r.slot j).serial).erase (r.slot i).serial := by
    rw [List.Nodup.erase_eq_filter nodup, List.filter_map]
    refine congrArg (List.map _) (List.filter_congr fun j hj => ?_)
    by_cases hne : j = i
    · simp [hne]
    · have differ : (r.slot j).serial ≠ (r.slot i).serial := fun same =>
        hne (h.serial_inj (h.grouped_live j hj) hi same)
      simp [hne, differ]
  simp only [roster, Roster.eraseGroup, slot_eraseGroup, same]
  rfl

theorem roster_release (h : r.Layout d live grouped) (hi : i ∈ live) :
    (r.release i).roster (live.filter (· ≠ i)) grouped =
      (r.roster live grouped).release (r.slot i).serial := by
  have runners : (live.filter (· ≠ i)).map (r.release i).slot =
      (live.map r.slot).filter (·.serial ≠ (r.slot i).serial) := by
    rw [List.filter_map]
    have kept : live.filter (· ≠ i) =
        live.filter ((fun s => decide (s.serial ≠ (r.slot i).serial)) ∘ r.slot) := by
      refine List.filter_congr fun j hj => ?_
      by_cases hne : j = i
      · simp [hne]
      · have differ : (r.slot j).serial ≠ (r.slot i).serial := fun same =>
          hne (h.serial_inj hj hi same)
        simp [hne, differ]
    rw [← kept]
    exact List.map_congr_left fun j hj => slot_release_of_mem hj
  simp only [roster, Roster.release, runners, serial_release]
  rfl

theorem roster_reclaim (h : r.Layout d live grouped)
    (apart : ∀ i ∈ grouped, (r.slot i).state ≠ .terminated) :
    (r.reclaim.1.roster (live.filter fun i => (r.slot i).state ≠ .terminated) grouped,
      r.reclaim.2) = (r.roster live grouped).reclaim := by
  obtain ⟨_, slots, lastRunId, allocations, count⟩ := h.reclaim apart
  have runners : (live.filter fun i => (r.slot i).state ≠ .terminated).map r.reclaim.1.slot =
      (live.map r.slot).filter fun s => s.state ≠ .terminated := by
    rw [List.filter_map]
    refine List.map_congr_left fun j hj => ?_
    obtain ⟨hl, hs⟩ := List.mem_filter.mp hj
    exact slots j hl (by simpa using hs)
  have indexed : grouped.map (fun j => (r.reclaim.1.slot j).serial) =
      grouped.map fun j => (r.slot j).serial :=
    List.map_congr_left fun j hj => by rw [slots j (h.grouped_live j hj) (apart j hj)]
  have ended : (live.filter fun i => (r.slot i).state = .terminated).length =
      ((live.map r.slot).filter fun s => s.state = .terminated).length := by
    rw [List.filter_map, List.length_map]
    rfl
  simp only [Roster.reclaim_eq, roster, runners, indexed, lastRunId, allocations, count, ended]

end Layout
end Registry
end AppSupervisor
