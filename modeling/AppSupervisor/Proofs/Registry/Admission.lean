import AppSupervisor.Registry.Basic

namespace AppSupervisor

theorem isPowerOfTwo_iff {n : UInt64} : isPowerOfTwo n ↔ n.toNat.isPowerOfTwo := by
  rw [isPowerOfTwo, beq_iff_eq, Nat.one_shiftLeft]
  constructor
  · exact fun h => ⟨_, h⟩
  · rintro ⟨k, h⟩
    rw [h, Nat.log2_two_pow]

theorem isCapacity_iff {n : UInt64} : isCapacity n ↔ 0 < n.toNat ∧ n.toNat < 4294967295 := by
  have zero : n ≠ 0 ↔ n.toNat ≠ 0 := not_congr UInt64.toNat_inj.symm
  simp only [isCapacity, bne_iff_ne, Bool.and_eq_true, decide_eq_true_eq, zero,
    UInt64.lt_iff_toNat_lt]
  have link : (4294967295 : UInt64).toNat = 4294967295 := rfl
  omega

/-- Measures that a registry can have. -/
structure Registry.Admits (capacity : UInt64) (maxRunId : UInt32) (buckets : UInt64) : Prop where
  pos : 0 < capacity.toNat
  /-- The last 32-bit link marks the end and leads to no slot. -/
  linked : capacity.toNat < 4294967295
  room : capacity.toNat ≤ maxRunId.toNat
  power : buckets.toNat.isPowerOfTwo

namespace Registry

variable {capacity buckets : UInt64} {maxRunId : UInt32}

theorem admits_iff : Admits capacity maxRunId buckets ↔
    isCapacity capacity ∧ ¬maxRunId.toUInt64 < capacity ∧ isPowerOfTwo buckets := by
  have room : ¬maxRunId.toUInt64 < capacity ↔ capacity.toNat ≤ maxRunId.toNat := by
    rw [UInt64.lt_iff_toNat_lt, UInt32.toNat_toUInt64, Nat.not_lt]
  rw [isCapacity_iff, room, isPowerOfTwo_iff]
  exact ⟨fun h => ⟨⟨h.pos, h.linked⟩, h.room, h.power⟩,
    fun ⟨⟨pos, linked⟩, room, power⟩ => ⟨pos, linked, room, power⟩⟩

theorem create_of_admits (h : Admits capacity maxRunId buckets) :
    create capacity maxRunId buckets =
      if isReservable buckets then .ok (empty capacity.toNat maxRunId buckets.toNat)
      else .error .outOfMemory := by
  obtain ⟨links, room, power⟩ := admits_iff.mp h
  simp only [create, links, room, power, Bool.not_true, Bool.false_eq_true, if_false]
  cases isReservable buckets <;> rfl

theorem create_of_not_admits (h : ¬Admits capacity maxRunId buckets) :
    ∃ a, create capacity maxRunId buckets = .error (.invalid a) := by
  unfold create
  split
  next => exact ⟨_, rfl⟩
  next links =>
    split
    next => exact ⟨_, rfl⟩
    next room =>
      split
      next => exact ⟨_, rfl⟩
      next power =>
        exact absurd (admits_iff.mpr ⟨by simpa using links, room, by simpa using power⟩) h

theorem create_invalid_iff : (∃ a, create capacity maxRunId buckets = .error (.invalid a)) ↔
    ¬Admits capacity maxRunId buckets := by
  refine ⟨?_, create_of_not_admits⟩
  rintro ⟨a, rejected⟩ h
  rw [create_of_admits h] at rejected
  split at rejected <;> cases rejected

end Registry
end AppSupervisor
