import AppSupervisor.ChildSignal
import Mathlib.Data.List.Induction

namespace AppSupervisor.ChildSignal

def run (s : ChildSignal) (steps : List Step) : ChildSignal :=
  steps.foldl (fun s step => (s.step step).1) s

def Step.installed (before : Bool) : Step → Bool
  | install => true
  | uninstall => false
  | block | unblock | unblockOldest | blockForever => before

def isInstalled (steps : List Step) : Bool := steps.foldl Step.installed false

def Step.count (alive : Nat) : Step → Nat
  | block => alive + 1
  | unblock | unblockOldest => alive - 1
  | install | uninstall | blockForever => alive

def alive (steps : List Step) : Nat := steps.foldl Step.count 0

/-- The newest block is always dropped first, and none is alive when the signal is blocked for
good. -/
structure Permitted (steps : List Step) : Prop where
  newest : .unblockOldest ∉ steps
  forever : ∀ i < steps.length, steps[i]? = some .blockForever → alive (steps.take i) = 0

/-- Steps in which all blocks that are made are dropped again, and no others. -/
inductive Nested : List Step → Prop
  | nil : Nested []
  | idle {step : Step} {later : List Step}
      (idle : step ≠ .block ∧ step ≠ .unblock ∧ step ≠ .unblockOldest) (rest : Nested later) :
      Nested (step :: later)
  | pair {inner later : List Step} (inside : Nested inner) (rest : Nested later) :
      Nested (.block :: (inner ++ .unblock :: later))

/-- What holds of a thread after some steps. -/
structure Guarded (steps : List Step) : Prop where
  exclusive : (run initial steps).reapers ≤ 1
  reapers : (run initial steps).reapers = 0 ↔ ¬isInstalled steps
  installs : ((run initial steps).step .install).2 = .ok () ↔ (run initial steps).reapers = 0
  refuses : (run initial steps).reapers ≠ 0 →
    (run initial steps).step .install = (run initial steps, .error .reaperInstalled)
  masked : (run initial steps).masked ↔ 0 < alive steps ∨ .blockForever ∈ steps
  /-- To drop a block puts back the mask that was in force when it was made. -/
  restores : ∀ before inner, steps = before ++ .block :: inner → Nested inner →
    (run initial (steps ++ [.unblock])).masked = (run initial before).masked
  newest : 0 < alive steps → ∃ before inner, steps = before ++ .block :: inner ∧ Nested inner
  nested : ∀ inner, Nested inner → .blockForever ∉ inner →
    (run initial (steps ++ inner)).masked = (run initial steps).masked

variable {s : ChildSignal} {step : Step} {steps later inner : List Step}
  {masked installed : Bool} {saved : List Bool} {forever : Prop}

@[simp] theorem run_append (s : ChildSignal) (steps later : List Step) :
    s.run (steps ++ later) = (s.run steps).run later :=
  List.foldl_append

@[simp] theorem run_cons (s : ChildSignal) (step : Step) (later : List Step) :
    s.run (step :: later) = (s.step step).1.run later := rfl

@[simp] theorem run_nil (s : ChildSignal) : s.run [] = s := rfl

theorem alive_concat (steps : List Step) (step : Step) :
    alive (steps ++ [step]) = step.count (alive steps) := by
  rw [alive, List.foldl_append]
  rfl

/-- A handler is in force exactly when a reaper is installed, and then it is the only one. -/
structure Exclusive (s : ChildSignal) (installed : Bool) : Prop where
  active : s.active = installed
  reapers : s.reapers = installed.toNat

namespace Exclusive

theorem next (h : s.Exclusive installed) (step : Step) :
    (s.step step).1.Exclusive (step.installed installed) := by
  obtain ⟨active, reapers, masked, saved⟩ := s
  obtain ⟨rfl, count⟩ := h
  obtain rfl : reapers = active.toNat := count
  cases step with
  | install => cases active <;> exact ⟨rfl, rfl⟩
  | uninstall => cases active <;> exact ⟨rfl, rfl⟩
  | unblock => cases saved <;> exact ⟨rfl, rfl⟩
  | unblockOldest =>
    simp only [ChildSignal.step, unblockOldest]
    split <;> exact ⟨rfl, rfl⟩
  | block => exact ⟨rfl, rfl⟩
  | blockForever => exact ⟨rfl, rfl⟩

theorem run (h : s.Exclusive installed) (steps : List Step) :
    (s.run steps).Exclusive (steps.foldl Step.installed installed) := by
  induction steps generalizing s installed with
  | nil => exact h
  | cons step steps ih => exact ih (h.next step)

theorem reapers_le (h : s.Exclusive installed) : s.reapers ≤ 1 := by
  rw [h.reapers]
  exact Bool.toNat_le installed

theorem reapers_eq_zero (h : s.Exclusive installed) : s.reapers = 0 ↔ ¬installed := by
  rw [h.reapers]
  cases installed <;> simp

theorem refuses (h : s.Exclusive installed) (some : s.reapers ≠ 0) :
    s.step .install = (s, .error .reaperInstalled) := by
  have active : s.active := h.active.trans (not_not.mp (mt h.reapers_eq_zero.mpr some))
  simp only [ChildSignal.step, install, if_pos active]

theorem install_iff (h : s.Exclusive installed) :
    (s.step .install).2 = .ok () ↔ s.reapers = 0 := by
  by_cases none : s.reapers = 0
  · have inactive : ¬s.active := h.active ▸ h.reapers_eq_zero.mp none
    simp only [ChildSignal.step, install, if_neg inactive, none]
  · rw [h.refuses none]
    exact ⟨nofun, fun zero => absurd zero none⟩

end Exclusive

/-- The masks that were in force, from now on back to the oldest block: the signal is blocked in all
of them but the last, and in that one if it was blocked for good. -/
def Nests (forever : Prop) : Bool → List Bool → Prop
  | masked, [] => masked ↔ forever
  | masked, mask :: saved => masked ∧ Nests forever mask saved

theorem Nests.masked_iff (h : Nests forever masked saved) :
    masked ↔ 0 < saved.length ∨ forever := by
  cases saved with
  | nil => simpa [Nests] using h
  | cons => simp [h.1]

theorem Permitted.last (h : Permitted (steps ++ [step])) :
    Permitted steps ∧ step ≠ .unblockOldest ∧ (step = .blockForever → alive steps = 0) := by
  refine ⟨⟨fun mem => h.newest (List.mem_append_left _ mem), fun i hi found => ?_⟩, ?_, ?_⟩
  · have earlier := h.forever i (by rw [List.length_append]; omega)
    rw [List.getElem?_append_left hi, List.take_append_of_le_length (Nat.le_of_lt hi)] at earlier
    exact earlier found
  · rintro rfl
    exact h.newest (by simp)
  · rintro rfl
    have last := h.forever steps.length (by simp)
    rw [List.take_left] at last
    exact last (by simp)

theorem Permitted.of_append (h : Permitted (steps ++ later)) : Permitted steps := by
  induction later using List.reverseRecOn with
  | nil => rwa [List.append_nil] at h
  | append_singleton later step ih =>
    rw [← List.append_assoc] at h
    exact ih h.last.1

theorem unblock_eq {mask : Bool} {masks : List Bool} (h : s.saved = mask :: masks) :
    s.unblock = { s with masked := mask, saved := masks } := by
  rw [unblock, h]

theorem idle_step (idle : step ≠ .block ∧ step ≠ .unblock ∧ step ≠ .unblockOldest)
    (s : ChildSignal) : (s.step step).1.saved = s.saved ∧
      (s.step step).1.masked = if step = .blockForever then true else s.masked := by
  cases step with
  | install => cases active : s.active <;> simp [ChildSignal.step, install, active]
  | uninstall => by_cases none : s.reapers = 0 <;> simp [ChildSignal.step, uninstall, none]
  | blockForever => exact ⟨rfl, rfl⟩
  | block => exact absurd rfl idle.1
  | unblock => exact absurd rfl idle.2.1
  | unblockOldest => exact absurd rfl idle.2.2

namespace Nested

theorem append (h : Nested inner) (h' : Nested later) : Nested (inner ++ later) := by
  induction h with
  | nil => exact h'
  | idle idle _ ih => exact .idle idle ih
  | pair inside _ _ ih =>
    rw [List.cons_append, List.append_assoc, List.cons_append]
    exact .pair inside ih

theorem count (h : Nested inner) (n : Nat) : inner.foldl Step.count n = n := by
  induction h generalizing n with
  | nil => rfl
  | @idle step later idle _ ih =>
    rw [List.foldl_cons, ih]
    cases step <;> simp_all [Step.count]
  | pair _ _ inside rest =>
    rw [List.foldl_cons, List.foldl_append, inside, List.foldl_cons, rest]
    rfl

theorem saved_run (h : Nested inner) (s : ChildSignal) : (s.run inner).saved = s.saved := by
  induction h generalizing s with
  | nil => rfl
  | idle idle _ ih => rw [run_cons, ih, (idle_step idle s).1]
  | pair _ _ inside rest =>
    have kept : (s.block.run _).saved = s.masked :: s.saved := inside s.block
    rw [run_cons, run_append, run_cons, rest]
    simp only [step, unblock_eq kept]

theorem masked_pair (h : Nested inner) (s : ChildSignal) :
    (s.run (.block :: (inner ++ [.unblock]))).masked = s.masked := by
  have kept : (s.block.run inner).saved = s.masked :: s.saved := h.saved_run s.block
  rw [run_cons, run_append, run_cons, run_nil]
  simp only [step, unblock_eq kept]

theorem masked_run (h : Nested inner) (s : ChildSignal) (absent : .blockForever ∉ inner) :
    (s.run inner).masked = s.masked := by
  induction h generalizing s with
  | nil => rfl
  | @idle step later idle _ ih =>
    rw [List.mem_cons, not_or] at absent
    rw [run_cons, ih _ absent.2, (idle_step idle s).2, if_neg (Ne.symm absent.1)]
  | @pair inner later inside _ _ rest =>
    have parts : .block :: (inner ++ .unblock :: later) =
        .block :: (inner ++ [Step.unblock]) ++ later := by simp
    have absent' : .blockForever ∉ later := fun mem => absent (by simp [mem])
    rw [parts, run_append, rest _ absent', inside.masked_pair]

end Nested

theorem nests_step (h : Nests forever s.masked s.saved) (newest : step ≠ .unblockOldest)
    (outside : step = .blockForever → s.saved = []) :
    Nests (forever ∨ step = .blockForever) (s.step step).1.masked (s.step step).1.saved ∧
      (s.step step).1.saved.length = step.count s.saved.length := by
  by_cases idle : step ≠ .block ∧ step ≠ .unblock ∧ step ≠ .unblockOldest
  · have same : step.count s.saved.length = s.saved.length := (Nested.idle idle .nil).count _
    obtain ⟨saved, masked⟩ := idle_step idle s
    rw [saved, masked, same]
    split
    next last =>
      rw [outside last]
      exact ⟨iff_of_true rfl (.inr last), rfl⟩
    next other => exact ⟨by simpa [other] using h, rfl⟩
  cases step with
  | block => exact ⟨⟨rfl, by simpa using h⟩, rfl⟩
  | unblock =>
    simp only [ChildSignal.step]
    cases saved : s.saved with
    | nil =>
      have none : s.unblock = s := by rw [unblock, saved]
      rw [none, saved]
      exact ⟨by simpa [saved] using h, rfl⟩
    | cons mask masks =>
      rw [unblock_eq saved]
      rw [saved] at h
      exact ⟨by simpa using h.2, rfl⟩
  | unblockOldest => exact absurd rfl newest
  | install | uninstall | blockForever => simp at idle

theorem nests_run (h : Permitted steps) :
    Nests (.blockForever ∈ steps) (run initial steps).masked (run initial steps).saved ∧
      (run initial steps).saved.length = alive steps := by
  induction steps using List.reverseRecOn with
  | nil => exact ⟨iff_of_false Bool.false_ne_true List.not_mem_nil, rfl⟩
  | append_singleton steps step ih =>
    obtain ⟨earlier, newest, outside⟩ := h.last
    obtain ⟨nests, count⟩ := ih earlier
    obtain ⟨nests', count'⟩ := nests_step nests newest fun last =>
      List.length_eq_zero_iff.mp (count.trans (outside last))
    rw [run_append, alive_concat, ← count]
    exact ⟨by simpa [eq_comm] using nests', count'⟩

theorem exists_newest (h : Permitted steps) (some : 0 < alive steps) :
    ∃ before inner, steps = before ++ .block :: inner ∧ Nested inner := by
  induction length : steps.length using Nat.strongRecOn generalizing steps with
  | ind n ih =>
    induction steps using List.reverseRecOn with
    | nil => cases some
    | append_singleton steps step _ =>
      obtain ⟨earlier, newest, _⟩ := h.last
      rw [alive_concat] at some
      rw [List.length_append, List.length_singleton] at length
      by_cases idle : step ≠ .block ∧ step ≠ .unblock ∧ step ≠ .unblockOldest
      · have same : step.count (alive steps) = alive steps := (Nested.idle idle .nil).count _
        obtain ⟨before, inner, rfl, inside⟩ := ih steps.length (by omega) earlier (same ▸ some) rfl
        exact ⟨before, inner ++ [step], by simp, inside.append (.idle idle .nil)⟩
      cases step with
      | block => exact ⟨steps, [], rfl, .nil⟩
      | unblock =>
        -- The step drops the newest block, so the one before it is the newest now.
        have two : 1 < alive steps := Nat.lt_of_sub_pos some
        obtain ⟨before, inner, rfl, inside⟩ :=
          ih steps.length (by omega) earlier (by omega) rfl
        have left : alive (before ++ .block :: inner) = alive before + 1 := by
          rw [alive, List.foldl_append, List.foldl_cons, inside.count]
          rfl
        rw [List.length_append] at length
        obtain ⟨first, outer, rfl, outside⟩ :=
          ih before.length (by omega) earlier.of_append (by omega) rfl
        exact ⟨first, outer ++ .block :: (inner ++ [.unblock]), by simp,
          outside.append (.pair inside .nil)⟩
      | install | uninstall | blockForever => simp at idle
      | unblockOldest => exact absurd rfl newest

/-- Whatever reapers and blocks are made and dropped, at no point are there two reapers, and the
signal is blocked exactly when it should be. -/
theorem guarded_of_permitted (h : Permitted steps) :
    ∀ earlier, earlier <+: steps → Guarded earlier := by
  rintro earlier ⟨later, rfl⟩
  have exclusive : (run initial earlier).Exclusive (isInstalled earlier) :=
    Exclusive.run (show initial.Exclusive false from ⟨rfl, rfl⟩) earlier
  obtain ⟨nests, count⟩ := nests_run h.of_append
  refine ⟨exclusive.reapers_le, exclusive.reapers_eq_zero, exclusive.install_iff,
    exclusive.refuses, count ▸ nests.masked_iff, ?_, exists_newest h.of_append,
    fun inner inside absent => ?_⟩
  · rintro before inner rfl inside
    rw [List.append_assoc, run_append]
    exact inside.masked_pair _
  · rw [run_append, inside.masked_run _ absent]

/-- A start inside the launch of another start, on a thread on which the signal is blocked for good
in the end. -/
theorem guarded_nested :
    let steps : List Step := [.install, .block, .install, .block, .unblock, .uninstall, .install,
      .unblock, .blockForever, .block, .unblock]
    Permitted steps ∧ (run initial steps).masked ∧ Guarded (steps.take 4) ∧ Guarded steps := by
  intro steps
  have permitted : Permitted steps := ⟨by decide, by decide⟩
  have guarded := guarded_of_permitted permitted
  exact ⟨permitted, rfl, guarded _ (List.take_prefix 4 steps), guarded _ (List.prefix_refl _)⟩

end AppSupervisor.ChildSignal
