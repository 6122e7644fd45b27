import AppSupervisor.Proofs.Registry.Notification
import AppSupervisor.Proofs.Registry.View

namespace AppSupervisor.Registry

def kept (keep : Bool) (i : Nat) (xs : List Nat) : List Nat :=
  if keep then xs else xs.filter (· ≠ i)

variable {d : Measures} {r r' : Registry} {live grouped starting xs : List Nat} {i j : Nat}
  {left : Option Runner}

theorem mem_of_kept {keep : Bool} (h : j ∈ kept keep i xs) : j ∈ xs := by
  unfold kept at h
  split at h
  next => exact h
  next => exact List.mem_of_mem_filter h

theorem mem_kept_of_ne {keep : Bool} (hne : j ≠ i) : j ∈ kept keep i xs ↔ j ∈ xs := by
  unfold kept
  split
  next => rfl
  next => simp [hne]

theorem keep_of_mem_kept {keep : Bool} (h : i ∈ kept keep i xs) : keep = true := by
  cases keep with
  | true => rfl
  | false => simp [kept] at h

theorem kept_eq_self {keep : Bool} (h : i ∈ xs → keep = true) : kept keep i xs = xs := by
  cases keep with
  | true => rfl
  | false => exact Index.filter_ne_eq_self fun hi => Bool.false_ne_true (h hi)

theorem kept_eq_filter (keep : Bool) (i : Nat) (xs : List Nat) :
    kept keep i xs = xs.filter fun j => keep ∨ j ≠ i := by
  cases keep <;> simp [kept]

theorem kept_comm (keep keep' : Bool) (i j : Nat) (xs : List Nat) :
    kept keep i (kept keep' j xs) = kept keep' j (kept keep i xs) := by
  cases keep <;> cases keep' <;> simp [kept, List.filter_filter, Bool.and_comm]

/-- One slot in use has been written or given back. It is indexed by process group as long as its
runner has a process. -/
structure Rewrites (d : Measures) (r : Registry) (live grouped starting : List Nat) (i : Nat)
    (left : Option Runner) (r' : Registry) : Prop where
  sound : r'.Sound d (kept left.isSome i live)
    (kept (left.any fun y => y.state.hasProcess) i grouped) starting
  other : ∀ j, j ≠ i → r'.slot j = r.slot j
  own : ∀ y, left = some y → r'.slot i = y
  lastRunId : r'.lastRunId = r.lastRunId
  allocations : r'.allocations = r.allocations

/-- No two runners indexed by process group have the same leader. -/
def Unshared (r : Registry) (grouped : List Nat) : Prop :=
  ∀ i ∈ grouped, ∀ j ∈ grouped, (r.slot i).leader = (r.slot j).leader → i = j

theorem rewrites_some {y : Runner} (sound : r'.Sound d live grouped starting)
    (process : i ∈ grouped → y.state.hasProcess) (other : ∀ j, j ≠ i → r'.slot j = r.slot j)
    (own : r'.slot i = y) (lastRunId : r'.lastRunId = r.lastRunId)
    (allocations : r'.allocations = r.allocations) :
    r.Rewrites d live grouped starting i (some y) r' := by
  have same : kept ((some y).any fun y => y.state.hasProcess) i grouped = grouped :=
    kept_eq_self process
  exact ⟨same.symm ▸ sound, other, fun z hz => own.trans (Option.some.inj hz), lastRunId, allocations⟩

namespace Sound

variable (h : r.Sound d live grouped starting)

include h

theorem rewrites_self : r.Rewrites d live grouped starting i (some (r.slot i)) r :=
  rewrites_some h h.hasProcess (fun _ _ => rfl) rfl rfl rfl

theorem rewrites_updateState (hi : i ∈ live) {f : RunState → RunState}
    (process : (f (r.slot i).state).hasProcess)
    (sound : (r.updateState i f).Sound d live grouped starting) :
    r.Rewrites d live grouped starting i (some { r.slot i with state := f (r.slot i).state })
      (r.updateState i f) := by
  refine rewrites_some sound (fun _ => process) (fun j hj => slot_updateState_of_ne hj f) ?_ rfl rfl
  rw [slot_updateState, if_pos ⟨rfl, h.layout.lt_size hi⟩]

theorem rewrites_finish (hi : i ∈ grouped) :
    r.Rewrites d live grouped starting i (some { r.slot i with state := .terminated })
      ((r.eraseGroup i).updateState i fun _ => .terminated) := by
  have hl := h.layout.grouped_live i hi
  have lt : i < (r.eraseGroup i).slots.size := h.layout.lt_size hl
  refine ⟨h.finish hi, fun j hj => ?_, fun y hy => ?_, rfl, rfl⟩
  · rw [slot_updateState_of_ne hj, slot_eraseGroup]
  · rw [slot_updateState, if_pos ⟨rfl, lt⟩]
    exact Option.some.inj hy

theorem rewrites_release (hi : i ∈ live) (ended : (r.slot i).state = .terminated) :
    r.Rewrites d live grouped starting i none (r.release i) := by
  have hg : i ∉ grouped := h.not_mem_grouped (by simp [ended, RunState.hasProcess])
  have same : grouped.filter (· ≠ i) = grouped := Index.filter_ne_eq_self hg
  have released := h.release_terminated hi ended
  refine ⟨?_, fun j hj => slot_release_of_ne hj, fun y hy => ?_, rfl, rfl⟩
  · show (r.release i).Sound d (live.filter (· ≠ i)) (grouped.filter (· ≠ i)) starting
    rwa [same]
  · cases hy

end Sound

theorem Rewrites.unshared (h : r.Rewrites d live grouped starting i left r')
    (leader : ∀ y, left = some y → y.leader = (r.slot i).leader)
    (unshared : r.Unshared grouped) :
    r'.Unshared (kept (left.any fun y => y.state.hasProcess) i grouped) := by
  have same : ∀ j ∈ kept (left.any fun y => y.state.hasProcess) i grouped,
      (r'.slot j).leader = (r.slot j).leader := by
    intro j hj
    by_cases he : j = i
    · subst he
      obtain ⟨y, rfl, _⟩ := (Option.any_eq_true _ _).mp (keep_of_mem_kept hj)
      rw [h.own y rfl]
      exact leader y rfl
    · rw [h.other j he]
  intro j hj k hk shared
  rw [same j hj, same k hk] at shared
  exact unshared j (mem_of_kept hj) k (mem_of_kept hk) shared

/-- Two registries give the same answers. -/
structure Resembles (r r' : Registry) : Prop where
  toList : r.toList = r'.toList
  lookupRunId : ∀ id, r.lookupRunId id = r'.lookupRunId id
  lookupGroup : ∀ group, r.lookupGroup group = r'.lookupGroup group
  size : r.size = r'.size

theorem Resembles.lookupPid (h : r.Resembles r') (groupOf : Pid → Option Pid) (pid : Pid) :
    r.lookupPid groupOf pid = r'.lookupPid groupOf pid := by
  have groups : r.lookupGroup = r'.lookupGroup := funext h.lookupGroup
  rw [lookupPid_eq_or, groups, lookupPid_eq_or]

theorem resembles_of_roster {grouped' live' : List Nat} (h : r.Layout d live grouped)
    (h' : r'.Layout d live' grouped') (same : r.roster live grouped = r'.roster live' grouped') :
    r.Resembles r' where
  toList := by rw [h.toList_eq, h'.toList_eq, same]
  lookupRunId id := by rw [h.lookupRunId_eq, h'.lookupRunId_eq, same]
  lookupGroup group := by rw [h.lookupGroup_eq, h'.lookupGroup_eq, same]
  size := by rw [h.size_eq, h'.size_eq, same]

theorem Rewrites.resembles {r₁ r₂ r₁₂ r₂₁ : Registry} {left' : Option Runner} (hne : i ≠ j)
    (first : r.Rewrites d live grouped starting i left r₁)
    (second : r₁.Rewrites d (kept left.isSome i live)
      (kept (left.any fun y => y.state.hasProcess) i grouped) starting j left' r₁₂)
    (first' : r.Rewrites d live grouped starting j left' r₂)
    (second' : r₂.Rewrites d (kept left'.isSome j live)
      (kept (left'.any fun y => y.state.hasProcess) j grouped) starting i left r₂₁) :
    r₁₂.Resembles r₂₁ := by
  have layout := second.sound.layout
  have layout' := second'.sound.layout
  rw [kept_comm, kept_comm _ _ i j grouped] at layout'
  have slots : ∀ k ∈ kept left'.isSome j (kept left.isSome i live), r₁₂.slot k = r₂₁.slot k := by
    intro k hk
    by_cases hi : k = i
    · subst hi
      obtain ⟨y, hy⟩ := Option.isSome_iff_exists.mp
        (keep_of_mem_kept ((mem_kept_of_ne hne).mp hk))
      rw [second.other k hne, first.own y hy, second'.own y hy]
    · by_cases hj : k = j
      · subst hj
        obtain ⟨y, hy⟩ := Option.isSome_iff_exists.mp (keep_of_mem_kept hk)
        rw [second.own y hy, second'.other k hi, first'.own y hy]
      · rw [second.other k hj, first.other k hi, second'.other k hi, first'.other k hj]
  refine resembles_of_roster layout layout' ?_
  have runners := List.map_congr_left slots
  have indexed := List.map_congr_left fun k hk =>
    congrArg Runner.serial (slots k (layout.grouped_live k hk))
  have lastRunId : r₁₂.lastRunId = r₂₁.lastRunId := by
    rw [second.lastRunId, first.lastRunId, second'.lastRunId, first'.lastRunId]
  have allocations : r₁₂.allocations = r₂₁.allocations := by
    rw [second.allocations, first.allocations, second'.allocations, first'.allocations]
  simp only [roster, runners, indexed, lastRunId, allocations]

end AppSupervisor.Registry
