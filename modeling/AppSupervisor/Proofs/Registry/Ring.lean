import AppSupervisor.Registry.Roster
import Mathlib.Data.List.Nodup
import Mathlib.Data.Nat.ModEq

namespace AppSupervisor

variable {maxRunId last id : UInt32} {r : Registry} {n : Nat}

theorem RunId.toNat_inj {x y : RunId} : x.toNat = y.toNat ↔ x = y :=
  ⟨fun same => congrArg RunId.mk (UInt32.toNat_inj.mp same), congrArg RunId.toNat⟩

namespace Registry

theorem toNat_nextRunId (pos : 0 < maxRunId.toNat) (last : UInt32) :
    (nextRunId maxRunId last).toNat = last.toNat % maxRunId.toNat + 1 := by
  have lt : last.toNat % maxRunId.toNat < maxRunId.toNat := Nat.mod_lt _ pos
  have small := maxRunId.toNat_lt
  simp only [nextRunId, UInt32.toNat_add, UInt32.toNat_mod, UInt32.toNat_one]
  exact Nat.mod_eq_of_lt (by omega)

theorem nextRunId_range (pos : 0 < maxRunId.toNat) (last : UInt32) :
    1 ≤ (nextRunId maxRunId last).toNat ∧ (nextRunId maxRunId last).toNat ≤ maxRunId.toNat := by
  have lt : last.toNat % maxRunId.toNat < maxRunId.toNat := Nat.mod_lt _ pos
  rw [toNat_nextRunId pos]
  omega

theorem unusedRunId?_eq_some (pos : 0 < r.maxRunId.toNat)
    (h : r.unusedRunId? n last = some id) :
    r.slotOfRunId? ⟨id⟩ = none ∧ 1 ≤ id.toNat ∧ id.toNat ≤ r.maxRunId.toNat := by
  induction n generalizing last with
  | zero => simp [unusedRunId?] at h
  | succ n ih =>
    simp only [unusedRunId?] at h
    split at h
    next => exact ih h
    next free =>
      cases Option.some.inj h
      exact ⟨by simpa using free, nextRunId_range pos last⟩

end Registry

theorem Roster.ring_succ (pos : 0 < maxRunId.toNat) (last : UInt32) (n : Nat) :
    ring maxRunId last (n + 1) =
      ⟨Registry.nextRunId maxRunId last⟩ :: ring maxRunId (Registry.nextRunId maxRunId last) n := by
  have first : UInt32.ofNat (last.toNat % maxRunId.toNat + 1) =
      Registry.nextRunId maxRunId last := by
    rw [← Registry.toNat_nextRunId pos, UInt32.ofNat_toNat]
  have later : ∀ k, ((Registry.nextRunId maxRunId last).toNat + k) % maxRunId.toNat =
      (last.toNat + (k + 1)) % maxRunId.toNat := by
    intro k
    rw [Registry.toNat_nextRunId pos, Nat.add_assoc, Nat.mod_add_mod, Nat.add_comm 1 k]
  simp only [ring, List.range_succ_eq_map, List.map_cons, List.map_map, Nat.add_zero, first,
    Function.comp_def, Nat.succ_eq_add_one, later]

/-- The search goes through the ring, behind the last id. -/
theorem Registry.unusedRunId?_eq_find? (pos : 0 < r.maxRunId.toNat) (last : UInt32) (n : Nat) :
    r.unusedRunId? n last =
      ((Roster.ring r.maxRunId last n).find? fun id => (r.slotOfRunId? id).isNone).map
        RunId.val := by
  induction n generalizing last with
  | zero => rfl
  | succ n ih =>
    rw [Roster.ring_succ pos, List.find?_cons]
    simp only [unusedRunId?]
    cases r.slotOfRunId? ⟨nextRunId r.maxRunId last⟩ with
    | none => rfl
    | some i => simpa using ih (nextRunId r.maxRunId last)

namespace Roster

variable {k : Nat} {x y : RunId}

@[simp] theorem length_ring (maxRunId last : UInt32) (n : Nat) :
    (ring maxRunId last n).length = n := by
  simp [ring]

theorem getElem?_ring (pos : 0 < maxRunId.toNat) : (ring maxRunId last n)[k]? = some x ↔
    k < n ∧ x.toNat = (last.toNat + k) % maxRunId.toNat + 1 := by
  have lt : (last.toNat + k) % maxRunId.toNat < maxRunId.toNat := Nat.mod_lt _ pos
  have small := maxRunId.toNat_lt
  have value : (UInt32.ofNat ((last.toNat + k) % maxRunId.toNat + 1)).toNat =
      (last.toNat + k) % maxRunId.toNat + 1 :=
    UInt32.toNat_ofNat_of_lt (show _ < 4294967296 by omega)
  simp only [ring, List.getElem?_map, Option.map_eq_some_iff, List.getElem?_eq_some_iff,
    List.getElem_range, List.length_range]
  constructor
  · rintro ⟨_, ⟨hk, rfl⟩, rfl⟩
    exact ⟨hk, value⟩
  · rintro ⟨hk, hx⟩
    refine ⟨k, ⟨hk, rfl⟩, ?_⟩
    rw [← value] at hx
    exact congrArg RunId.mk (UInt32.toNat_inj.mp hx).symm

theorem nodup_ring (le : n ≤ maxRunId.toNat) : (ring maxRunId last n).Nodup := by
  refine List.nodup_iff_getElem?_ne_getElem?.mpr fun i j hij hj same => ?_
  have hj' : j < n := by simpa using hj
  have pos : 0 < maxRunId.toNat := by omega
  obtain ⟨x, hx⟩ : ∃ x, (ring maxRunId last n)[j]? = some x := ⟨_, List.getElem?_eq_getElem hj⟩
  obtain ⟨_, first⟩ := (getElem?_ring pos).mp (same.trans hx)
  obtain ⟨_, second⟩ := (getElem?_ring pos).mp hx
  have equal : (last.toNat + i) % maxRunId.toNat = (last.toNat + j) % maxRunId.toNat := by omega
  have small : i % maxRunId.toNat = j % maxRunId.toNat := Nat.ModEq.add_left_cancel' _ equal
  rw [Nat.mod_eq_of_lt (by omega), Nat.mod_eq_of_lt (by omega)] at small
  omega

/-- How many ids of the ring lie between `last` and an id. -/
def place (maxRunId last : UInt32) (id : RunId) : Nat :=
  (ring maxRunId last maxRunId.toNat).idxOf id

theorem place_eq (hk : k < maxRunId.toNat)
    (value : x.toNat = (last.toNat + k) % maxRunId.toNat + 1) : place maxRunId last x = k := by
  have pos : 0 < maxRunId.toNat := by omega
  obtain ⟨hlt, hx⟩ := List.getElem?_eq_some_iff.mp ((getElem?_ring pos).mpr ⟨hk, value⟩)
  rw [place, ← hx]
  exact (nodup_ring (Nat.le_refl _)).idxOf_getElem k hlt

theorem place_spec (range : 1 ≤ x.toNat ∧ x.toNat ≤ maxRunId.toNat) (last : UInt32) :
    place maxRunId last x < maxRunId.toNat ∧
      x.toNat = (last.toNat + place maxRunId last x) % maxRunId.toNat + 1 := by
  obtain ⟨low, high⟩ := range
  have pos : 0 < maxRunId.toNat := by omega
  have rest : last.toNat % maxRunId.toNat < maxRunId.toNat := Nat.mod_lt _ pos
  obtain ⟨k, hk⟩ : ∃ k, k = (x.toNat - 1 + maxRunId.toNat - last.toNat % maxRunId.toNat) %
    maxRunId.toNat := ⟨_, rfl⟩
  have lt : k < maxRunId.toNat := hk ▸ Nat.mod_lt _ pos
  have value : x.toNat = (last.toNat + k) % maxRunId.toNat + 1 := by
    have turn : last.toNat % maxRunId.toNat +
        (x.toNat - 1 + maxRunId.toNat - last.toNat % maxRunId.toNat) =
          x.toNat - 1 + maxRunId.toNat := by omega
    rw [hk, Nat.add_mod_mod, ← Nat.mod_add_mod, turn, Nat.add_mod_right,
      Nat.mod_eq_of_lt (by omega)]
    omega
  rw [place_eq lt value]
  exact ⟨lt, value⟩

theorem mem_ring (pos : 0 < maxRunId.toNat) :
    x ∈ ring maxRunId last maxRunId.toNat ↔ 1 ≤ x.toNat ∧ x.toNat ≤ maxRunId.toNat := by
  constructor
  · intro hx
    obtain ⟨k, hk⟩ := List.mem_iff_getElem?.mp hx
    obtain ⟨_, value⟩ := (getElem?_ring pos).mp hk
    have lt := Nat.mod_lt (last.toNat + k) pos
    omega
  · intro range
    obtain ⟨lt, value⟩ := place_spec range last
    exact List.mem_of_getElem? ((getElem?_ring pos).mpr ⟨lt, value⟩)

theorem place_self (range : 1 ≤ x.toNat ∧ x.toNat ≤ maxRunId.toNat) :
    place maxRunId x.val x = maxRunId.toNat - 1 := by
  obtain ⟨low, high⟩ := range
  refine place_eq (by omega) ?_
  have turn : x.toNat + (maxRunId.toNat - 1) = x.toNat - 1 + maxRunId.toNat := by omega
  show x.toNat = (x.toNat + (maxRunId.toNat - 1)) % maxRunId.toNat + 1
  rw [turn, Nat.add_mod_right, Nat.mod_eq_of_lt (by omega)]
  omega

theorem place_of_lt (hx : 1 ≤ x.toNat ∧ x.toNat ≤ maxRunId.toNat)
    (hy : 1 ≤ y.toNat ∧ y.toNat ≤ maxRunId.toNat)
    (ahead : place maxRunId last y < place maxRunId last x) :
    place maxRunId y.val x = place maxRunId last x - place maxRunId last y - 1 := by
  obtain ⟨lt, valueX⟩ := place_spec hx last
  obtain ⟨_, valueY⟩ := place_spec hy last
  refine place_eq (by omega) ?_
  have steps : last.toNat + place maxRunId last x = last.toNat + place maxRunId last y +
      (1 + (place maxRunId last x - place maxRunId last y - 1)) := by omega
  show x.toNat = (y.toNat + (place maxRunId last x - place maxRunId last y - 1)) %
    maxRunId.toNat + 1
  rw [valueX, steps, ← Nat.mod_add_mod, ← Nat.add_assoc, ← valueY]

theorem place_inj (hx : 1 ≤ x.toNat ∧ x.toNat ≤ maxRunId.toNat)
    (hy : 1 ≤ y.toNat ∧ y.toNat ≤ maxRunId.toNat)
    (same : place maxRunId last x = place maxRunId last y) : x = y := by
  obtain ⟨_, valueX⟩ := place_spec hx last
  obtain ⟨_, valueY⟩ := place_spec hy last
  rw [same, ← valueY] at valueX
  exact RunId.toNat_inj.mp valueX

end Roster

/-- The search passes an id only because a runner holds it. -/
theorem Registry.held_of_place_lt {x : RunId} (short : n ≤ r.maxRunId.toNat)
    (found : r.unusedRunId? n last = some id)
    (passed : Roster.place r.maxRunId last x < Roster.place r.maxRunId last ⟨id⟩) :
    ∃ i, r.slotOfRunId? x = some i := by
  have pos : 0 < r.maxRunId.toNat := by
    cases n with
    | zero => simp [unusedRunId?] at found
    | succ n => omega
  rw [unusedRunId?_eq_find? pos] at found
  obtain ⟨y, search, rfl⟩ := Option.map_eq_some_iff.mp found
  obtain ⟨_, k, hk, hy, held⟩ := List.find?_eq_some_iff_getElem.mp search
  have short' : k < n := by simpa using hk
  obtain ⟨_, valueY⟩ := (Roster.getElem?_ring pos).mp (List.getElem?_eq_some_iff.mpr ⟨hk, hy⟩)
  rw [Roster.place_eq (by omega) valueY] at passed
  obtain ⟨q, hq⟩ : ∃ q, q = Roster.place r.maxRunId last x := ⟨_, rfl⟩
  have lt : q < (Roster.ring r.maxRunId last r.maxRunId.toNat).length := by
    rw [Roster.length_ring]
    omega
  have there : (Roster.ring r.maxRunId last r.maxRunId.toNat)[q]? = some x := by
    subst hq
    exact List.getElem?_eq_some_iff.mpr ⟨lt, List.getElem_idxOf lt⟩
  obtain ⟨_, valueX⟩ := (Roster.getElem?_ring pos).mp there
  have hx : (Roster.ring r.maxRunId last n)[q]? = some x :=
    (Roster.getElem?_ring pos).mpr ⟨by omega, valueX⟩
  obtain ⟨hlt, hx⟩ := List.getElem?_eq_some_iff.mp hx
  have taken := held q (by omega)
  rw [hx] at taken
  simpa [Option.isSome_iff_exists] using taken

end AppSupervisor
