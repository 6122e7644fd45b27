import AppSupervisor.Proofs.ControlThread.Lifecycle
import AppSupervisor.Proofs.Registry.Allocation
import AppSupervisor.Proofs.Registry.Refinement

namespace AppSupervisor

open ControlThread (Effect Reaches ofSupervisor effect_step)

namespace Registry

/-- What operations make of a registry, or a supervisor that requests, status changes and answers of
the launcher lead on. -/
inductive Reached (r : Registry) : Registry → Prop
  | performed (ops : List Operation) : Reached r (r.performAll ops).1
  | served {home : String} {t : ControlThread} (h : Reaches (ofSupervisor ⟨home, r⟩) t) :
      Reached r t.registry

/-- An allocation gives out the first id behind the last one in the ring that no live runner holds.
Its search ends after so many rounds, however many it might take. -/
structure Picks (maxRunId : UInt32) (r : Registry) (m : Manifest) (r' : Registry)
    (i rounds : Nat) : Prop where
  allocated : r.allocate m = .ok (r', i)
  runId : (r'.slot i).runId = ⟨r'.lastRunId⟩
  first : (Roster.cycle maxRunId r.lastRunId).find? (fun k => ∀ x ∈ r.toList, x.runId.toNat ≠ k) =
    some r'.lastRunId.toNat
  search : ∀ n, r.unusedRunId? n r.lastRunId = if rounds ≤ n then some r'.lastRunId else none
  rounds_le : rounds ≤ r.live + 1

variable {d : Measures} {r r' x : Registry} {a : Roster} {live grouped : List Nat} {i : Nat}
  {m : Manifest}

theorem withSlot_keeps {α : Type} {read : Registry → α} {id : RunId} {f : Nat → Registry × Answer}
    (keeps : ∀ i, read (f i).1 = read r) : read (r.withSlot id f).1 = read r := by
  unfold withSlot
  split
  next => exact keeps _
  next => rfl

theorem Refines.allots (h : r.Refines d live grouped a) (op : Operation) :
    (r.perform op).1.lastRunId = r.lastRunId ∨
      ∃ m i, r.Allocates m (r.perform op).1 i := by
  cases op with
  | allocate m =>
    cases hr : r.allocate m with
    | error e => exact Or.inl (by simp only [Registry.perform, hr])
    | ok result =>
      refine Or.inr ⟨m, result.2, ?_⟩
      simp only [Registry.perform, hr]
      exact allocate_eq_ok hr
  | insertGroup | release =>
    refine Or.inl (withSlot_keeps fun i => ?_)
    split <;> rfl
  | eraseGroup | finish => exact Or.inl (withSlot_keeps fun i => rfl)
  | reclaim =>
    obtain ⟨_, _, lastRunId, _⟩ := h.layout.reclaim fun i hi => RunState.ne_terminated (h.process i hi)
    exact Or.inl lastRunId

theorem Refines.lastRunId_performAll (h : r.Refines d live grouped a)
    (paced : r.lastRunId.toNat ≤ d.maxRunId.toNat) (ops : List Operation) :
    (r.performAll ops).1.lastRunId.toNat ≤ d.maxRunId.toNat := by
  induction ops generalizing r a live grouped with
  | nil => exact paced
  | cons op ops ih =>
    obtain ⟨_, _, _, next⟩ := h.perform op
    have paced' : (r.perform op).1.lastRunId.toNat ≤ d.maxRunId.toNat := by
      rcases h.allots op with same | ⟨m, i, allocates⟩
      · rwa [same]
      · exact (h.layout.lastRunId_range allocates).2
    exact ih next paced'

theorem lastRunId_of_reaches {t u : ControlThread} (h : Reaches t u) (sound : t.Sound d live grouped)
    (paced : t.registry.lastRunId.toNat ≤ d.maxRunId.toNat) :
    u.registry.lastRunId.toNat ≤ d.maxRunId.toNat := by
  induction h with
  | refl => exact paced
  | @step u reaches groupOf move ih =>
    obtain ⟨_, _, sound'⟩ := reaches.sound sound
    rcases (effect_step groupOf u move).allots sound' with ⟨same, _⟩ | ⟨m, i, allocates⟩
    · rwa [same]
    · obtain ⟨left, _⟩ := sound'.registry.layout.reclaim sound'.registry.unended
      exact (left.lastRunId_range allocates).2

theorem layout_of_reached {capacity buckets : UInt64} {maxRunId : UInt32}
    (created : create capacity maxRunId buckets = .ok r) (h : r.Reached x) :
    ∃ (d : Measures) (live grouped : List Nat), x.Layout d live grouped ∧
      x.lastRunId.toNat ≤ d.maxRunId.toNat ∧ d.capacity = capacity.toNat ∧ d.maxRunId = maxRunId := by
  obtain ⟨d, hcapacity, hmax, hbuckets, rfl⟩ := create_eq_ok created
  rw [← hcapacity, ← hmax, ← hbuckets] at h
  rw [← hcapacity, ← hmax]
  cases h with
  | performed ops =>
    obtain ⟨_, live, grouped, last⟩ := (refines_empty d).performAll ops
    exact ⟨d, live, grouped, last.layout,
      (refines_empty d).lastRunId_performAll (Nat.zero_le _) ops, rfl, rfl⟩
  | @served home t reaches =>
    have sound := ControlThread.sound_empty d home
    obtain ⟨live, grouped, last⟩ := reaches.sound sound
    exact ⟨d, live, grouped, last.registry.layout,
      lastRunId_of_reaches reaches sound (Nat.zero_le _), rfl, rfl⟩

theorem Layout.picks (h : x.Layout d live grouped) (paced : x.lastRunId.toNat ≤ d.maxRunId.toNat)
    (room : x.live < d.capacity) (m : Manifest) :
    ∃ x' i rounds, x.Picks d.maxRunId m x' i rounds := by
  obtain ⟨x', i, allocated⟩ := h.exists_allocates room m
  have a := allocate_eq_ok allocated
  have short : x.live + 1 ≤ d.maxRunId.toNat := by
    have le := d.capacity_le
    omega
  obtain ⟨k, hk, first⟩ := unusedRunId?_eq_some_iff.mp a.unused
  refine ⟨x', i, k + 1, allocated, by rw [h.slot_allocated a], h.find?_cycle paced short a.unused,
    fun n => ?_, by omega⟩
  split
  next enough => exact unusedRunId?_eq_some_iff.mpr ⟨k, by omega, first⟩
  next early =>
    -- An id found sooner would be one of those that are held.
    obtain ⟨same, unused, before⟩ := first
    refine Option.eq_none_iff_forall_ne_some.mpr fun id found => ?_
    obtain ⟨j, hj, same', unused', _⟩ := unusedRunId?_eq_some_iff.mp found
    rw [← same'] at unused'
    exact before j (by omega) unused'

/-- With a free slot an allocation gives out the first id of the ring that is not held, after at
most one round more than there are live runners; the ring never overflows. Without one nothing
changes. -/
theorem allocate_of_reached {capacity buckets : UInt64} {maxRunId : UInt32}
    (created : create capacity maxRunId buckets = .ok r) (h : r.Reached x) (m : Manifest) :
    (x.live < capacity.toNat → ∃ x' i rounds, x.Picks maxRunId m x' i rounds) ∧
    (x.maxRunId = maxRunId ∧ maxRunId ≠ 0 ∧ ∀ last,
      (nextRunId maxRunId last).toNat = last.toNat % maxRunId.toNat + 1 ∧
      1 ≤ (nextRunId maxRunId last).toNat ∧
      (nextRunId maxRunId last).toNat ≤ maxRunId.toNat) ∧
    (x.live = capacity.toNat → x.allocate m = .error (.exhausted capacity.toNat) ∧
      x.perform (.allocate m) = (x, .allocated (.error (.exhausted capacity.toNat)))) := by
  obtain ⟨d, live, grouped, layout, paced, hcapacity, rfl⟩ := layout_of_reached created h
  have pos : 0 < d.maxRunId.toNat := layout.maxRunId_eq ▸ layout.maxRunId_pos
  rw [← hcapacity]
  refine ⟨fun room => layout.picks paced room m, ⟨layout.maxRunId_eq, ?_, fun last =>
    ⟨toNat_nextRunId pos last, nextRunId_range pos last⟩⟩, fun full => ?_⟩
  · rintro zero
    simp [zero] at pos
  · have refused := layout.allocate_full (Nat.le_of_eq full.symm) m
    exact ⟨refused, by simp only [perform, refused]⟩

def lapped : List Operation :=
  let m : Manifest := ⟨.null, "notes"⟩
  [.allocate m, .allocate m, .allocate m, .release ⟨3⟩, .allocate m, .release ⟨4⟩]

theorem allocate_lapped :
    let x := ((empty 3 4 2).performAll lapped).1
    (x.live = 2 ∧ x.lastRunId = 4) ∧ ∃ x' i rounds, x.Picks 4 ⟨.null, "notes"⟩ x' i rounds ∧
      x'.lastRunId = 3 ∧ rounds = 3 := by
  have live : ((empty 3 4 2).performAll lapped).1.live = 2 := by decide +kernel
  have first : (Roster.cycle 4 ((empty 3 4 2).performAll lapped).1.lastRunId).find? (fun k =>
      ∀ x ∈ ((empty 3 4 2).performAll lapped).1.toList, x.runId.toNat ≠ k) = some 3 := by
    decide +kernel
  have early : ((empty 3 4 2).performAll lapped).1.unusedRunId? 2 4 = none := by decide +kernel
  obtain ⟨x', i, rounds, picks⟩ := (allocate_of_reached
    (show create 3 4 2 = .ok (empty 3 4 2) from rfl) (.performed lapped) ⟨.null, "notes"⟩).1
    (by rw [live]; decide)
  have third := Option.some.inj (picks.first.symm.trans first)
  have longer : ¬rounds ≤ 2 := fun enough => by
    have found := picks.search 2
    rw [if_pos enough] at found
    exact Option.some_ne_none _ (found.symm.trans early)
  have rounds_le := picks.rounds_le
  exact ⟨by decide +kernel, x', i, rounds, picks, UInt32.toNat_inj.mp third, by omega⟩

end Registry
end AppSupervisor
