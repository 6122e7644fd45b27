import AppSupervisor.Proofs.Registry.Reclaim

namespace AppSupervisor.Registry

/-- The live runner with a serial number. -/
def runner? (r : Registry) (n : Nat) : Option Runner := r.toList.find? (·.serial = n)

def state? (r : Registry) (n : Nat) : Option RunState := (r.runner? n).map Runner.state

namespace Layout

variable {d : Measures} {r r' : Registry} {live grouped live' grouped' : List Nat} {i n : Nat}
  {s : Runner} {m : Manifest}

theorem mem_toList (h : r.Layout d live grouped) : s ∈ r.toList ↔ ∃ i ∈ live, r.slot i = s := by
  simp only [toList, List.mem_map, h.byRunId.mem_toList]

theorem lookupRunId_eq_some (h : r.Layout d live grouped) {id : RunId} :
    r.lookupRunId id = some s ↔ s ∈ r.toList ∧ s.runId = id := by
  rw [lookupRunId, Option.map_eq_some_iff, h.mem_toList]
  constructor
  · rintro ⟨i, found, rfl⟩
    obtain ⟨hi, named⟩ := h.slotOfRunId?_eq_some.mp found
    exact ⟨⟨i, hi, rfl⟩, named⟩
  · rintro ⟨⟨i, hi, rfl⟩, named⟩
    exact ⟨i, h.slotOfRunId?_eq_some.mpr ⟨hi, named⟩, rfl⟩

theorem lookupRunId_eq_none (h : r.Layout d live grouped) {id : RunId} :
    r.lookupRunId id = none ↔ ∀ s ∈ r.toList, s.runId ≠ id := by
  rw [Option.eq_none_iff_forall_ne_some]
  constructor
  · exact fun absent s hs named => absent s (h.lookupRunId_eq_some.mpr ⟨hs, named⟩)
  · intro other s found
    obtain ⟨hs, named⟩ := h.lookupRunId_eq_some.mp found
    exact other s hs named

theorem nodup_runIds (h : r.Layout d live grouped) : (r.toList.map Runner.runId).Nodup := by
  have nodup : r.byRunId.toList.Nodup := h.byRunId.toList_perm.nodup_iff.mpr h.live_nodup
  rw [toList, List.map_map]
  refine nodup.map_on fun i hi j hj same => ?_
  exact h.runId_inj i (h.byRunId.mem_toList.mp hi) j (h.byRunId.mem_toList.mp hj) same

/-- No two live runners have the same serial number. -/
theorem runner?_eq_some (h : r.Layout d live grouped) :
    r.runner? n = some s ↔ ∃ i ∈ live, r.slot i = s ∧ s.serial = n := by
  constructor
  · intro found
    obtain ⟨i, hi, he⟩ := h.mem_toList.mp (List.mem_of_find?_eq_some found)
    exact ⟨i, hi, he, by simpa using List.find?_some found⟩
  · rintro ⟨i, hi, rfl, rfl⟩
    refine find?_eq_some_of_unique (h.mem_toList.mpr ⟨i, hi, rfl⟩) (by simp) fun s hs same => ?_
    obtain ⟨j, hj, rfl⟩ := h.mem_toList.mp hs
    rw [h.serial_inj hj hi (by simpa using same)]

theorem runner?_slot (h : r.Layout d live grouped) (hi : i ∈ live) :
    r.runner? (r.slot i).serial = some (r.slot i) :=
  h.runner?_eq_some.mpr ⟨i, hi, rfl, rfl⟩

theorem lt_allocations (h : r.Layout d live grouped) (hs : r.runner? n = some s) :
    n < r.allocations := by
  obtain ⟨i, hi, rfl, rfl⟩ := h.runner?_eq_some.mp hs
  exact h.serial_lt i hi

theorem runner?_congr (h : r.Layout d live grouped) (h' : r'.Layout d live' grouped')
    (kept : ∀ i ∈ live, (r.slot i).serial = n → i ∈ live' ∧ r'.slot i = r.slot i)
    (known : ∀ i ∈ live', (r'.slot i).serial = n → i ∈ live ∧ r'.slot i = r.slot i) :
    r'.runner? n = r.runner? n := by
  refine Option.ext fun s => ?_
  rw [h'.runner?_eq_some, h.runner?_eq_some]
  constructor
  · rintro ⟨i, hi, rfl, hn⟩
    obtain ⟨hl, he⟩ := known i hi hn
    exact ⟨i, hl, he.symm, hn⟩
  · rintro ⟨i, hi, rfl, hn⟩
    obtain ⟨hl, he⟩ := kept i hi hn
    exact ⟨i, hl, he, hn⟩

theorem runner?_allocate (h : r.Layout d live grouped) (a : r.Allocates m r' i) :
    r'.runner? n = if n = r.allocations then
      some ⟨⟨r'.lastRunId⟩, ⟨0⟩, ⟨0⟩, .starting, some m, r.allocations⟩ else r.runner? n := by
  have self := h.slot_allocated a
  split
  next he => exact (h.allocate a).runner?_eq_some.mpr ⟨i, by simp, self, he.symm⟩
  next hne =>
    refine h.runner?_congr (h.allocate a) (fun j hj _ => ?_) fun j hj hn => ?_
    · exact ⟨List.mem_cons_of_mem i hj, h.slot_allocate a hj⟩
    · rcases List.mem_cons.mp hj with rfl | hj
      · rw [self] at hn
        exact absurd hn.symm hne
      · exact ⟨hj, h.slot_allocate a hj⟩

theorem runner?_modifySlot (h : r.Layout d live grouped) (hi : i ∈ live) {f : Runner → Runner}
    (runId : (f (r.slot i)).runId = (r.slot i).runId)
    (serial : (f (r.slot i)).serial = (r.slot i).serial)
    (leader : i ∈ grouped → (f (r.slot i)).leader = (r.slot i).leader) :
    (r.modifySlot i f).runner? n =
      if n = (r.slot i).serial then some (f (r.slot i)) else r.runner? n := by
  have h' := h.modifySlot runId serial leader
  have self := slot_modifySlot_self (h.lt_size hi) f
  split
  next he => exact h'.runner?_eq_some.mpr ⟨i, hi, self, serial.trans he.symm⟩
  next hne =>
    refine h.runner?_congr h' (fun j hj hn => ⟨hj, slot_modifySlot_of_ne ?_ f⟩)
      fun j hj hn => ⟨hj, slot_modifySlot_of_ne ?_ f⟩
    · rintro rfl
      exact hne hn.symm
    · rintro rfl
      rw [self, serial] at hn
      exact hne hn.symm

theorem runner?_updateState (h : r.Layout d live grouped) (hi : i ∈ live)
    (f : RunState → RunState) :
    (r.updateState i f).runner? n = if n = (r.slot i).serial then
      some { r.slot i with state := f (r.slot i).state } else r.runner? n :=
  h.runner?_modifySlot hi rfl rfl fun _ => rfl

theorem runner?_updateState_of_not_mem (h : r.Layout d live grouped) (hi : i ∉ live)
    (f : RunState → RunState) : (r.updateState i f).runner? n = r.runner? n := by
  have other : ∀ j ∈ live, (r.updateState i f).slot j = r.slot j := fun j hj =>
    slot_updateState_of_ne (ne_of_mem_of_not_mem hj hi) f
  exact h.runner?_congr (h.updateState i f) (fun j hj _ => ⟨hj, other j hj⟩)
    fun j hj _ => ⟨hj, other j hj⟩

theorem runner?_insertGroup (h : r.Layout d live grouped) (hi : i ∈ live) (hg : i ∉ grouped)
    (children : Children) :
    (r.insertGroup i children).runner? n = if n = (r.slot i).serial then
      some { r.slot i with leader := children.leader, app := children.app, state := .running }
      else r.runner? n :=
  h.runner?_modifySlot hi rfl rfl fun mem => absurd mem hg

theorem runner?_release (h : r.Layout d live grouped) (hi : i ∈ live) (hg : i ∉ grouped) :
    (r.release i).runner? n = if n = (r.slot i).serial then none else r.runner? n := by
  have h' := h.release hi hg
  split
  next he =>
    refine Option.eq_none_iff_forall_ne_some.mpr fun s hs => ?_
    obtain ⟨j, hj, rfl, hn⟩ := h'.runner?_eq_some.mp hs
    obtain ⟨hl, hne⟩ := List.mem_filter.mp hj
    rw [serial_release, he] at hn
    exact absurd (h.serial_inj hl hi hn) (by simpa using hne)
  next hne =>
    refine h.runner?_congr h' (fun j hj hn => ?_) fun j hj _ => ?_
    · have hji : j ≠ i := by
        rintro rfl
        exact hne hn.symm
      exact ⟨List.mem_filter.mpr ⟨hj, by simpa using hji⟩, slot_release_of_ne hji⟩
    · exact ⟨List.mem_of_mem_filter hj, slot_release_of_mem hj⟩

theorem runner?_reclaim (h : r.Layout d live grouped)
    (apart : ∀ i ∈ grouped, (r.slot i).state ≠ .terminated) :
    r.reclaim.1.runner? n = (r.runner? n).filter (·.state ≠ .terminated) := by
  obtain ⟨h', slots, _⟩ := h.reclaim apart
  refine Option.ext fun s => ?_
  rw [h'.runner?_eq_some, Option.filter_eq_some_iff, h.runner?_eq_some]
  constructor
  · rintro ⟨i, hi, rfl, hn⟩
    obtain ⟨hl, hs⟩ := List.mem_filter.mp hi
    rw [slots i hl (by simpa using hs)] at hn ⊢
    exact ⟨⟨i, hl, rfl, hn⟩, hs⟩
  · rintro ⟨⟨i, hl, rfl, hn⟩, hs⟩
    exact ⟨i, List.mem_filter.mpr ⟨hl, hs⟩, slots i hl (by simpa using hs), hn⟩

theorem state?_slot (h : r.Layout d live grouped) (hi : i ∈ live) :
    r.state? (r.slot i).serial = some (r.slot i).state := by
  rw [state?, h.runner?_slot hi, Option.map_some]

theorem state?_allocations (h : r.Layout d live grouped) :
    r.state? r.allocations = none := by
  cases hs : r.runner? r.allocations with
  | none => rw [state?, hs, Option.map_none]
  | some s => exact absurd (h.lt_allocations hs) (Nat.lt_irrefl _)

theorem state?_allocate (h : r.Layout d live grouped) (a : r.Allocates m r' i) :
    r'.state? n = if n = r.allocations then some .starting else r.state? n := by
  rw [state?, h.runner?_allocate a]
  split <;> rfl

theorem state?_updateState (h : r.Layout d live grouped) (hi : i ∈ live)
    (f : RunState → RunState) :
    (r.updateState i f).state? n =
      if n = (r.slot i).serial then some (f (r.slot i).state) else r.state? n := by
  rw [state?, h.runner?_updateState hi]
  split <;> rfl

theorem state?_updateState_of_not_mem (h : r.Layout d live grouped) (hi : i ∉ live)
    (f : RunState → RunState) : (r.updateState i f).state? n = r.state? n := by
  rw [state?, h.runner?_updateState_of_not_mem hi, state?]

theorem state?_transition (h : r.Layout d live grouped) (hi : i ∈ live) (before after : RunState) :
    (r.transition i before after).state? (r.slot i).serial =
      some (if (r.slot i).state = before then after else (r.slot i).state) := by
  rw [transition, h.state?_updateState hi, if_pos rfl]

theorem runner?_transition_of_ne (h : r.Layout d live grouped) (hi : i ∈ live)
    (hne : n ≠ (r.slot i).serial) (before after : RunState) :
    (r.transition i before after).runner? n = r.runner? n := by
  rw [transition, h.runner?_updateState hi, if_neg hne]

theorem state?_insertGroup (h : r.Layout d live grouped) (hi : i ∈ live) (hg : i ∉ grouped)
    (children : Children) : (r.insertGroup i children).state? n =
      if n = (r.slot i).serial then some .running else r.state? n := by
  rw [state?, h.runner?_insertGroup hi hg]
  split <;> rfl

theorem state?_release (h : r.Layout d live grouped) (hi : i ∈ live) (hg : i ∉ grouped) :
    (r.release i).state? n = if n = (r.slot i).serial then none else r.state? n := by
  rw [state?, h.runner?_release hi hg]
  split <;> rfl

theorem state?_reclaim (h : r.Layout d live grouped)
    (apart : ∀ i ∈ grouped, (r.slot i).state ≠ .terminated) :
    r.reclaim.1.state? n = (r.state? n).filter (· ≠ .terminated) := by
  rw [state?, h.runner?_reclaim apart, state?, Option.filter_map]
  rfl

end Layout
end AppSupervisor.Registry
