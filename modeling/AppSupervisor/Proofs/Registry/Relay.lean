import AppSupervisor.Proofs.Registry.Refinement
import AppSupervisor.Proofs.Registry.Rewrites

namespace AppSupervisor

namespace Roster

def hear (a : Roster) (s : Report) : Roster :=
  match a.lookupPid s.groupOf s.pid with
  | none => a
  | some x =>
    (if s.event.isTerminal then a.eraseGroup x.serial else a).updateState x.serial
      (Registry.afterEvent s.event)

def relay (a : Roster) : List Report → Roster × List Bool
  | [] => (a, [])
  | s :: rest =>
    let (b, answers) := (a.hear s).relay rest
    (b, (a.lookupPid s.groupOf s.pid).isSome :: answers)

variable {a : Roster} {x : Runner} {n k : Nat} {children : Children} {group pid : Pid} {s : Report}
  {groupOf : Pid → Option Pid}

theorem find?_modify {f : Runner → Runner} (serial : ∀ s, (f s).serial = s.serial) (k : Nat) :
    (a.modify n f).find? k = (a.find? k).map fun s => if s.serial = n then f s else s := by
  have same : (fun s : Runner => decide (s.serial = k)) ∘
      (fun s => if s.serial = n then f s else s) = fun s => decide (s.serial = k) := by
    funext s
    simp only [Function.comp_apply]
    split
    next => rw [serial]
    next => rfl
  simp only [find?, modify, List.find?_map, same]

theorem serial_of_find? (found : a.find? k = some x) : x.serial = k := by
  simpa using List.find?_some found

theorem find?_modify_of_ne {f : Runner → Runner} (serial : ∀ s, (f s).serial = s.serial)
    (hne : k ≠ n) : (a.modify n f).find? k = a.find? k := by
  rw [find?_modify serial]
  cases found : a.find? k with
  | none => rfl
  | some x => rw [Option.map_some, if_neg (serial_of_find? found ▸ hne)]

theorem modify_comm {f g : Runner → Runner} (hf : ∀ s, (f s).serial = s.serial)
    (hg : ∀ s, (g s).serial = s.serial) (hne : n ≠ k) :
    (a.modify n f).modify k g = (a.modify k g).modify n f := by
  have same : (fun s : Runner => if s.serial = k then g s else s) ∘
        (fun s => if s.serial = n then f s else s) =
      (fun s => if s.serial = n then f s else s) ∘ fun s => if s.serial = k then g s else s := by
    funext s
    by_cases first : s.serial = n
    · simp [first, hne, hf]
    · by_cases second : s.serial = k <;> simp [first, second, hg, hne.symm]
  simp only [modify, List.map_map, same]

theorem mem_grouped (hx : x ∈ a.grouped) : x.serial ∈ a.indexed := by
  obtain ⟨k, hk, found⟩ := List.mem_filterMap.mp hx
  exact serial_of_find? found ▸ hk

theorem mem_indexed_of_lookupPid (found : a.lookupPid groupOf pid = some x) :
    x.serial ∈ a.indexed := by
  rcases Option.or_eq_some_iff.mp found with first | ⟨_, second⟩
  · exact mem_grouped (List.mem_of_find?_eq_some first)
  · obtain ⟨second, _⟩ := Option.filter_eq_some_iff.mp second
    obtain ⟨_, _, second⟩ := Option.bind_eq_some_iff.mp second
    exact mem_grouped (List.mem_of_find?_eq_some second)

theorem hear_unowned (unowned : a.lookupPid s.groupOf s.pid = none) : a.hear s = a := by
  simp only [hear, unowned]

theorem hear_owned (owned : (a.lookupPid s.groupOf s.pid).map Runner.serial = some n) :
    a.hear s = (if s.event.isTerminal then a.eraseGroup n else a).updateState n
      (Registry.afterEvent s.event) := by
  obtain ⟨x, hx, rfl⟩ := Option.map_eq_some_iff.mp owned
  simp only [hear, hx]

theorem indexed_hear (a : Roster) (s : Report) : (a.hear s).indexed ⊆ a.indexed := by
  unfold hear
  split
  next => exact List.Subset.refl _
  next =>
    split
    next => exact List.erase_subset
    next => exact List.Subset.refl _

theorem updateState_insertGroup (hne : k ≠ n) (f : RunState → RunState) :
    (a.insertGroup n children).updateState k f = (a.updateState k f).insertGroup n children := by
  have runners := congrArg Roster.runners (a.modify_comm (f := fun s => { s with
      leader := children.leader, app := children.app, state := .running })
    (g := fun s => { s with state := f s.state }) (fun _ => rfl) (fun _ => rfl) hne.symm)
  simp only [updateState, insertGroup, modify] at runners ⊢
  rw [runners]

theorem eraseGroup_insertGroup (hne : k ≠ n) :
    (a.insertGroup n children).eraseGroup k = (a.eraseGroup k).insertGroup n children := by
  have erased : (n :: a.indexed).erase k = n :: a.indexed.erase k :=
    List.erase_cons_tail (by simpa using hne.symm)
  simp only [eraseGroup, insertGroup, modify, erased]

theorem updateState_release (f : RunState → RunState) :
    (a.release n).updateState k f = (a.updateState k f).release n := by
  have same : (fun s : Runner => decide (s.serial ≠ n)) ∘
      (fun s => if s.serial = k then { s with state := f s.state } else s) =
        fun s => decide (s.serial ≠ n) := by
    funext s
    simp only [Function.comp_apply]
    split <;> rfl
  simp only [updateState, release, modify, List.filter_map, same]

theorem hear_comm (op : Roster → Roster) (new : n ∉ a.indexed)
    (updateState : ∀ b k f, k ≠ n → (op b).updateState k f = op (b.updateState k f))
    (eraseGroup : ∀ b k, k ≠ n → (op b).eraseGroup k = op (b.eraseGroup k))
    (owner : (op a).lookupPid s.groupOf s.pid = a.lookupPid s.groupOf s.pid) :
    (op a).hear s = op (a.hear s) := by
  unfold hear
  rw [owner]
  cases found : a.lookupPid s.groupOf s.pid with
  | none => rfl
  | some x =>
    -- Only runners that are indexed are concerned, and `n` is not.
    have hne : x.serial ≠ n := ne_of_mem_of_not_mem (mem_indexed_of_lookupPid found) new
    simp only
    split
    next => rw [eraseGroup _ _ hne, updateState _ _ _ hne]
    next => rw [updateState _ _ _ hne]

/-- What leaves the answer to each status change as it is may come before all of them or after. -/
theorem relay_comm (op : Roster → Roster) {reports : List Report}
    (updateState : ∀ b k f, k ≠ n → (op b).updateState k f = op (b.updateState k f))
    (eraseGroup : ∀ b k, k ≠ n → (op b).eraseGroup k = op (b.eraseGroup k))
    (owner : ∀ b : Roster, n ∉ b.indexed → ∀ s ∈ reports,
      (op b).lookupPid s.groupOf s.pid = b.lookupPid s.groupOf s.pid)
    (new : n ∉ a.indexed) :
    (op a).relay reports = (op (a.relay reports).1, (a.relay reports).2) := by
  -- By induction on the status changes: they take runners out of the index but put none there.
  induction reports generalizing a with
  | nil => rfl
  | cons s rest ih =>
    have first := owner a new s (by simp)
    have later := ih (fun b hb s hs => owner b hb s (List.mem_cons_of_mem _ hs))
      fun hn => new (a.indexed_hear s hn)
    simp only [relay, first, hear_comm op new updateState eraseGroup first, later]

section

variable (new : n ∉ a.indexed)

include new

theorem grouped_insertGroup : (a.insertGroup n children).grouped =
    ((a.find? n).map fun s => { s with
      leader := children.leader, app := children.app, state := .running }).toList ++ a.grouped := by
  have own : (a.insertGroup n children).find? n = (a.find? n).map fun s => { s with
      leader := children.leader, app := children.app, state := .running } := by
    have modified := a.find?_modify (n := n) (f := fun s => { s with
      leader := children.leader, app := children.app, state := .running }) (fun _ => rfl) n
    refine modified.trans (Option.map_congr fun s found => ?_)
    rw [if_pos (serial_of_find? (Option.mem_def.mp found))]
  have others : a.indexed.filterMap (a.insertGroup n children).find? = a.grouped :=
    List.filterMap_congr fun k hk =>
      find?_modify_of_ne (fun _ => rfl) (ne_of_mem_of_not_mem hk new)
  show (n :: a.indexed).filterMap _ = _
  rw [← own, ← others, List.filterMap_cons]
  cases (a.insertGroup n children).find? n <;> rfl

theorem lookupGroup_insertGroup (other : group ≠ children.leader) :
    (a.insertGroup n children).lookupGroup group = a.lookupGroup group := by
  rw [lookupGroup, grouped_insertGroup new, List.find?_append]
  cases a.find? n with
  | none => rfl
  | some x =>
    rw [Option.map_some, Option.toList_some, List.find?_cons_of_neg (by simpa using other.symm)]
    rfl

theorem lookupPid_insertGroup (other : pid ≠ children.leader)
    (apart : groupOf pid ≠ some children.leader) :
    (a.insertGroup n children).lookupPid groupOf pid = a.lookupPid groupOf pid := by
  unfold lookupPid
  rw [lookupGroup_insertGroup new other]
  cases hg : groupOf pid with
  | none => rfl
  | some group =>
    have other' : group ≠ children.leader := fun same => apart (same ▸ hg)
    rw [Option.bind_some, Option.bind_some, lookupGroup_insertGroup new other']

theorem lookupGroup_release : (a.release n).lookupGroup group = a.lookupGroup group := by
  have others : (a.release n).grouped = a.grouped := by
    refine List.filterMap_congr fun k hk => ?_
    have hne : k ≠ n := ne_of_mem_of_not_mem hk new
    simp only [find?, release, List.find?_filter]
    refine congrArg (fun p => List.find? p a.runners) (funext fun s => ?_)
    by_cases same : s.serial = k <;> simp [same, hne]
  rw [lookupGroup, others, lookupGroup]

theorem lookupPid_release :
    (a.release n).lookupPid groupOf pid = a.lookupPid groupOf pid := by
  have same : (a.release n).lookupGroup = a.lookupGroup := funext fun _ => lookupGroup_release new
  rw [lookupPid, same, lookupPid]

theorem relay_insertGroup {reports : List Report}
    (apart : ∀ s ∈ reports, s.pid ≠ children.leader ∧ s.groupOf s.pid ≠ some children.leader) :
    (a.insertGroup n children).relay reports =
      ((a.relay reports).1.insertGroup n children, (a.relay reports).2) :=
  relay_comm (·.insertGroup n children)
    (fun _ _ f hne => updateState_insertGroup hne f) (fun _ _ hne => eraseGroup_insertGroup hne)
    (fun _ hb s hs => lookupPid_insertGroup hb (apart s hs).1 (apart s hs).2) new

theorem relay_release (reports : List Report) :
    (a.release n).relay reports = ((a.relay reports).1.release n, (a.relay reports).2) :=
  relay_comm (·.release n) (fun _ _ f _ => updateState_release f)
    (fun _ _ _ => rfl) (fun _ hb _ _ => lookupPid_release hb) new

end

end Roster

namespace Registry

def relay (r : Registry) : List Report → Registry × List Bool
  | [] => (r, [])
  | s :: rest =>
    let (r, owned) := r.notify s.groupOf s.pid s.event
    let (r, answers) := r.relay rest
    (r, owned :: answers)

variable {d : Measures} {r : Registry} {live grouped starting : List Nat} {i : Nat}
  {reports : List Report}

theorem relay_fst (r : Registry) (reports : List Report) :
    (r.relay reports).1 = r.notifyAll reports := by
  induction reports generalizing r with
  | nil => rfl
  | cons s rest ih => exact ih _

theorem notify_snd (groupOf : Pid → Option Pid) (r : Registry) (pid : Pid) (event : ChildEvent) :
    (r.notify groupOf pid event).2 = (r.lookupPid groupOf pid).isSome := by
  unfold lookupPid
  cases found : r.slotOfPid? groupOf pid with
  | none => rw [notify_eq_self found, Option.map_none, Option.isSome_none]
  | some i => rw [notify_eq found, Option.map_some, Option.isSome_some]

namespace Layout

theorem roster_hear (h : r.Layout d live grouped) (s : Report) :
    ∃ grouped', grouped' ⊆ grouped ∧ (r.hear s).Layout d live grouped' ∧
      (r.hear s).roster live grouped' = (r.roster live grouped).hear s ∧
      ((∀ i ∈ grouped, (r.slot i).state.hasProcess) →
        ∀ i ∈ grouped', ((r.hear s).slot i).state.hasProcess) := by
  have heard := h.hears s
  have owner : r.owner? s.groupOf s.pid =
      ((r.roster live grouped).lookupPid s.groupOf s.pid).map Runner.serial := by
    rw [owner?, h.lookupPid_eq]
  generalize r.hear s = r' at heard ⊢
  cases heard with
  | unowned unowned =>
    rw [unowned] at owner
    exact ⟨grouped, List.Subset.refl _, h,
      (Roster.hear_unowned (Option.map_eq_none_iff.mp owner.symm)).symm, fun process => process⟩
  | @ended i hi owned terminal =>
    have hl := h.grouped_live i hi
    have erased := h.eraseGroup i
    refine ⟨grouped.filter (· ≠ i), List.filter_subset_self _, erased.updateState i _, ?_,
      fun process j hj => ?_⟩
    · rw [erased.roster_updateState hl, h.roster_eraseGroup hl, slot_eraseGroup,
        Roster.hear_owned (owner.symm.trans owned), if_pos terminal]
    · obtain ⟨hg, hne⟩ := List.mem_filter.mp hj
      rw [slot_updateState_of_ne (by simpa using hne), slot_eraseGroup]
      exact process j hg
  | @reported i hi owned lasting =>
    refine ⟨grouped, List.Subset.refl _, h.updateState i _, ?_, fun process j hj => ?_⟩
    · rw [h.roster_updateState (h.grouped_live i hi), Roster.hear_owned (owner.symm.trans owned),
        if_neg lasting]
    · rw [slot_updateState]
      split
      next => exact hasProcess_afterEvent lasting (process j hj)
      next => exact process j hj

theorem roster_relay (h : r.Layout d live grouped) (reports : List Report) :
    ∃ grouped', grouped' ⊆ grouped ∧ (r.relay reports).1.Layout d live grouped' ∧
      ((r.relay reports).1.roster live grouped', (r.relay reports).2) =
        (r.roster live grouped).relay reports := by
  induction reports generalizing r grouped with
  | nil => exact ⟨grouped, List.Subset.refl _, h, rfl⟩
  | cons s rest ih =>
    obtain ⟨grouped₁, sub₁, h₁, first, _⟩ := h.roster_hear s
    obtain ⟨grouped₂, sub₂, h₂, later⟩ := ih h₁
    refine ⟨grouped₂, List.Subset.trans sub₂ sub₁, h₂, ?_⟩
    have answer := notify_snd s.groupOf r s.pid s.event
    rw [h.lookupPid_eq] at answer
    rw [first, Prod.ext_iff] at later
    obtain ⟨roster, answers⟩ := later
    exact Prod.ext roster (congrArg₂ List.cons answer answers)

end Layout

namespace Sound

variable (h : r.Sound d live grouped (i :: starting))

include h

theorem relay_starting (reports : List Report) :
    i ∈ live ∧ i ∉ grouped ∧ (r.slot i).serial ∉ (r.roster live grouped).indexed ∧
      ((r.relay reports).1.slot i).serial = (r.slot i).serial ∧
      ∃ grouped', i ∉ grouped' ∧ (r.relay reports).1.Layout d live grouped' ∧
        ((r.relay reports).1.roster live grouped', (r.relay reports).2) =
          (r.roster live grouped).relay reports := by
  obtain ⟨hi, hs⟩ := (h.mem_starting i).mp (by simp)
  have hg : i ∉ grouped := h.not_mem_grouped (by simp [hs, RunState.hasProcess])
  have new : (r.slot i).serial ∉ (r.roster live grouped).indexed := by
    intro mem
    obtain ⟨j, hj, same⟩ := List.mem_map.mp mem
    exact hg (h.layout.serial_inj (h.layout.grouped_live j hj) hi same ▸ hj)
  obtain ⟨grouped', sub, layout, relayed⟩ := h.layout.roster_relay reports
  refine ⟨hi, hg, new, ?_, grouped', fun mem => hg (sub mem), layout, relayed⟩
  rw [relay_fst, h.serial_notifyAll]

/-- It does not matter whether a launch is accepted before or after status changes, if none of them
is about the new group: neither to their answers nor to those of the registry. -/
theorem relay_insertGroup {children : Children}
    (apart : ∀ s ∈ reports, s.pid ≠ children.leader ∧ s.groupOf s.pid ≠ some children.leader) :
    ((r.relay reports).1.insertGroup i children).Resembles
        ((r.insertGroup i children).relay reports).1 ∧
      (r.relay reports).2 = ((r.insertGroup i children).relay reports).2 := by
  obtain ⟨hi, hg, new, serial, grouped₁, hg₁, before, relayed⟩ := h.relay_starting reports
  obtain ⟨grouped₂, _, after, relayed'⟩ :=
    (h.layout.insertGroup hi hg children).roster_relay reports
  have same := Roster.relay_insertGroup new apart
  rw [← h.layout.roster_insertGroup hi, ← relayed', ← relayed, ← serial,
    ← before.roster_insertGroup hi, Prod.mk.injEq] at same
  exact ⟨resembles_of_roster (before.insertGroup hi hg₁ children) after same.1.symm, same.2.symm⟩

theorem relay_release (reports : List Report) :
    ((r.relay reports).1.release i).Resembles ((r.release i).relay reports).1 ∧
      (r.relay reports).2 = ((r.release i).relay reports).2 := by
  obtain ⟨hi, hg, new, serial, grouped₁, hg₁, before, relayed⟩ := h.relay_starting reports
  obtain ⟨grouped₂, _, after, relayed'⟩ := (h.layout.release hi hg).roster_relay reports
  have same := Roster.relay_release new reports
  rw [← h.layout.roster_release hi, ← relayed', ← relayed, ← serial,
    ← before.roster_release hi, Prod.mk.injEq] at same
  exact ⟨resembles_of_roster (before.release hi hg₁) after same.1.symm, same.2.symm⟩

end Sound

theorem Sound.refines (h : r.Sound d live grouped starting) :
    r.Refines d live grouped (r.roster live grouped) :=
  ⟨h.layout, rfl, fun _ hi => h.hasProcess hi⟩

theorem Refines.hear {a : Roster} (h : r.Refines d live grouped a) (s : Report) :
    ∃ grouped', (r.hear s).Refines d live grouped' (a.hear s) := by
  obtain ⟨grouped', _, layout, roster, process⟩ := h.layout.roster_hear s
  exact ⟨grouped', layout, roster.trans (by rw [h.roster]), process h.process⟩

theorem Refines.notifyAll {a : Roster} (h : r.Refines d live grouped a) (reports : List Report) :
    ∃ grouped' a', (r.notifyAll reports).Refines d live grouped' a' := by
  induction reports generalizing r grouped a with
  | nil => exact ⟨grouped, a, h⟩
  | cons s rest ih =>
    obtain ⟨_, heard⟩ := h.hear s
    exact ih heard

end Registry
end AppSupervisor
