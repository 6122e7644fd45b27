import AppSupervisor.Proofs.ControlThread.Course
import AppSupervisor.Proofs.Registry.Allocation
import Mathlib.Order.Interval.Finset.Nat

namespace AppSupervisor.Course

open ControlThread

def allotted? (c : Course) (k : Nat) : Option RunId :=
  ((c.registry (k + 1)).runner? (c.registry k).allocations).map Runner.runId

/-- A move allots an id that comes later in the ring than this one. -/
def Passes (c : Course) (k : Nat) (x : RunId) : Prop :=
  ∃ id, c.allotted? k = some id ∧
    Roster.place (c.registry k).maxRunId (c.registry k).lastRunId x <
      Roster.place (c.registry k).maxRunId (c.registry k).lastRunId id

/-- One runner holds the id all the time. -/
def Held (c : Course) (x : RunId) (i k : Nat) : Prop :=
  ∃ n, ∀ l, i ≤ l → l ≤ k → ∃ s, (c.registry l).runner? n = some s ∧ s.runId = x

def others (c : Course) (id : RunId) (i j : Nat) : Nat :=
  ((Finset.Ioo i j).filter fun k => c.allotted? k ≠ none ∧ c.allotted? k ≠ some id).card

variable {d : Measures} {c : Course} {i j k n : Nat} {id x : RunId} {s : Runner}

section

variable (h : c.Sound d)

include h

theorem maxRunId_eq (k : Nat) : (c.registry k).maxRunId = d.maxRunId := by
  obtain ⟨_, _, sound⟩ := h k
  exact sound.registry.layout.maxRunId_eq

theorem allots_or_same (k : Nat) :
    (c.allotted? k = none ∧ (c.registry (k + 1)).lastRunId = (c.registry k).lastRunId) ∨
    ∃ manifest i, (c.registry k).reclaim.1.Allocates manifest (c.registry (k + 1)) i ∧
      c.allotted? k = some ⟨(c.registry (k + 1)).lastRunId⟩ := by
  obtain ⟨_, _, sound⟩ := h k
  obtain ⟨_, _, sound'⟩ := h (k + 1)
  have e := effect_step (c.groupOf k) (c.thread k) (c.move k)
  rcases e.allots sound with ⟨last, allocations⟩ | ⟨manifest, i, a⟩
  · refine Or.inl ⟨?_, last⟩
    cases hs : (c.registry (k + 1)).runner? (c.registry k).allocations with
    | none => rw [allotted?, hs, Option.map_none]
    | some s =>
      have lt := sound'.registry.layout.lt_allocations hs
      exact absurd allocations (Nat.ne_of_gt lt)
  · obtain ⟨left, _, _, allocations, _⟩ := sound.registry.layout.reclaim sound.registry.unended
    have born := left.runner?_allocate a (n := (c.thread k).registry.allocations)
    rw [if_pos allocations.symm] at born
    exact Or.inr ⟨manifest, i, a, Option.map_eq_some_iff.mpr ⟨_, born, rfl⟩⟩

theorem allocates_of_allotted (allotted : c.allotted? k = some id) :
    (c.registry (k + 1)).lastRunId = id.val ∧
      ∃ manifest i, (c.registry k).reclaim.1.Allocates manifest (c.registry (k + 1)) i := by
  rcases c.allots_or_same h k with ⟨none, _⟩ | ⟨manifest, i, a, some⟩
  · simp [none] at allotted
  · rw [some] at allotted
    exact ⟨congrArg RunId.val (Option.some.inj allotted), manifest, i, a⟩

theorem range_of_allotted (allotted : c.allotted? k = some id) :
    1 ≤ id.toNat ∧ id.toNat ≤ d.maxRunId.toNat := by
  obtain ⟨last, manifest, i, a⟩ := c.allocates_of_allotted h allotted
  obtain ⟨_, _, sound⟩ := h k
  have range := sound.registry.reclaim.layout.lastRunId_range a
  rw [last] at range
  exact range

theorem allotted_since (hik : i ≤ k) (found : (c.registry k).runner? n = some s)
    (late : (c.registry i).allocations ≤ n) :
    ∃ l, i ≤ l ∧ l < k ∧ c.allotted? l = some s.runId := by
  induction k, hik using Nat.le_induction generalizing s with
  | base =>
    obtain ⟨_, _, sound⟩ := h i
    exact absurd (sound.registry.layout.lt_allocations found) (Nat.not_lt.mpr late)
  | succ k hik ih =>
    have fate := c.fate h k n
    rw [found] at fate
    cases before : (c.registry k).runner? n with
    | none =>
      rw [before] at fate
      obtain rfl := fate.eq_allocations
      exact ⟨k, hik, by omega, Option.map_eq_some_iff.mpr ⟨s, found, rfl⟩⟩
    | some s' =>
      rw [before] at fate
      obtain ⟨l, hil, hlk, allotted⟩ := ih before
      rw [← fate.remains.runId] at allotted
      exact ⟨l, hil, by omega, allotted⟩

theorem runner_of_passes (passes : c.Passes k x) :
    ∃ n s, (c.registry k).runner? n = some s ∧ (c.registry (k + 1)).runner? n = some s ∧
      s.runId = x := by
  obtain ⟨id, allotted, before⟩ := passes
  obtain ⟨last, manifest, i, a⟩ := c.allocates_of_allotted h allotted
  obtain ⟨live, grouped, sound⟩ := h k
  have layout := sound.registry.layout
  obtain ⟨left, slots, lastRunId, _⟩ := layout.reclaim sound.registry.unended
  have short : (c.registry k).reclaim.1.live + 1 ≤ (c.registry k).reclaim.1.maxRunId.toNat := by
    have room := a.room
    have size : (c.registry k).reclaim.1.capacity = d.capacity := left.slots_size
    have le := d.capacity_le
    rw [left.maxRunId_eq]
    omega
  have passed : Roster.place (c.registry k).reclaim.1.maxRunId (c.registry k).reclaim.1.lastRunId x <
      Roster.place (c.registry k).reclaim.1.maxRunId (c.registry k).reclaim.1.lastRunId
        ⟨(c.registry (k + 1)).lastRunId⟩ := by
    rw [left.maxRunId_eq, lastRunId, last, ← layout.maxRunId_eq]
    exact before
  obtain ⟨j, found⟩ := Registry.held_of_place_lt short a.unused passed
  obtain ⟨hj, named⟩ := left.slotOfRunId?_eq_some.mp found
  obtain ⟨hl, unended⟩ := List.mem_filter.mp hj
  have same := slots j hl (by simpa using unended)
  refine ⟨_, _, layout.runner?_slot hl, ?_, same ▸ named⟩
  have kept := left.slot_allocate a hj
  rw [← same, ← kept]
  exact (left.allocate a).runner?_slot (List.mem_cons_of_mem i hj)

theorem allotted_or_held (hik : i ≤ k) (passes : c.Passes k x) :
    (∃ l, i ≤ l ∧ l < k ∧ c.allotted? l = some x) ∨ c.Held x i (k + 1) := by
  obtain ⟨n, s, found, later, rfl⟩ := c.runner_of_passes h passes
  rcases Nat.lt_or_ge n (c.registry i).allocations with early | late
  · refine Or.inr ⟨n, fun l hil hlk => ?_⟩
    have bound := c.allocations_le h hil
    obtain ⟨s', hs', remains⟩ := c.remains h (by omega) hlk later
    exact ⟨s', hs', remains.runId.symm⟩
  · exact Or.inl (c.allotted_since h hik found late)

theorem ahead (first : c.allotted? i = some id) (hne : x ≠ id)
    (range : 1 ≤ x.toNat ∧ x.toNat ≤ d.maxRunId.toNat) (hik : i + 1 ≤ k) :
    (∃ l, i < l ∧ l < k ∧ (c.allotted? l = some x ∨ c.Passes l x)) ∨
      Roster.place d.maxRunId (c.registry k).lastRunId x <
        Roster.place d.maxRunId (c.registry k).lastRunId id := by
  have range' := c.range_of_allotted h first
  -- By induction on the moves since then. What is not met yet stays in front of the id: an allotment
  -- brings the ring nearer to both by the same distance.
  induction k, hik using Nat.le_induction with
  | base =>
    obtain ⟨last, _⟩ := c.allocates_of_allotted h first
    obtain ⟨lt, _⟩ := Roster.place_spec range id.val
    have apart : Roster.place d.maxRunId id.val x ≠ Roster.place d.maxRunId id.val id :=
      fun same => hne (Roster.place_inj range range' same)
    rw [Roster.place_self range'] at apart
    rw [last, Roster.place_self range']
    omega
  | succ k hik ih =>
    rcases ih with ⟨l, hil, hlk, met⟩ | before
    · exact Or.inl ⟨l, hil, by omega, met⟩
    · cases hy : c.allotted? k with
      | none =>
        rcases c.allots_or_same h k with ⟨_, last⟩ | ⟨_, _, _, some⟩
        · rw [last]
          exact Or.inr before
        · simp [some] at hy
      | some y =>
        have rangeY := c.range_of_allotted h hy
        rcases Nat.lt_trichotomy (Roster.place d.maxRunId (c.registry k).lastRunId x)
          (Roster.place d.maxRunId (c.registry k).lastRunId y) with behind | same | beyond
        · refine Or.inl ⟨k, hik, by omega, Or.inr ⟨y, hy, ?_⟩⟩
          rwa [c.maxRunId_eq h k]
        · obtain rfl := Roster.place_inj range rangeY same
          exact Or.inl ⟨k, hik, by omega, Or.inl hy⟩
        · obtain ⟨last, _⟩ := c.allocates_of_allotted h hy
          have nearer := Roster.place_of_lt range rangeY beyond
          have nearer' := Roster.place_of_lt range' rangeY (beyond.trans before)
          right
          rw [last, nearer, nearer']
          omega

theorem met_between (first : c.allotted? i = some id) (again : c.allotted? j = some id)
    (hij : i < j) (hne : x ≠ id) (range : 1 ≤ x.toNat ∧ x.toNat ≤ d.maxRunId.toNat) :
    (∃ k, i < k ∧ k < j ∧ c.allotted? k = some x) ∨
      ∃ k, i < k ∧ k ≤ j ∧ c.Passes k x ∧ c.Held x i (k + 1) := by
  have met : (∃ k, i < k ∧ k < j ∧ c.allotted? k = some x) ∨
      ∃ k, i < k ∧ k ≤ j ∧ c.Passes k x := by
    rcases c.ahead h first hne range hij with ⟨k, hik, hkj, allotted | passes⟩ | before
    · exact Or.inl ⟨k, hik, hkj, allotted⟩
    · exact Or.inr ⟨k, hik, Nat.le_of_lt hkj, passes⟩
    · refine Or.inr ⟨j, hij, Nat.le_refl j, id, again, ?_⟩
      rwa [c.maxRunId_eq h j]
  rcases met with allotted | ⟨k, hik, hkj, passes⟩
  · exact Or.inl allotted
  · rcases c.allotted_or_held h (Nat.le_of_lt hik) passes with ⟨l, hil, hlk, allotted⟩ | held
    · have hne' : l ≠ i := by
        rintro rfl
        exact hne (Option.some.inj (allotted.symm.trans first))
      exact Or.inl ⟨l, by omega, by omega, allotted⟩
    · exact Or.inr ⟨k, hik, hkj, passes, held⟩

theorem card_held (allotted : c.allotted? i = some id) :
    (((c.registry (i + 1)).toList.map Runner.runId).toFinset.erase id).card ≤ d.capacity - 1 := by
  obtain ⟨live, grouped, sound⟩ := h (i + 1)
  have layout := sound.registry.layout
  obtain ⟨s, hs, rfl⟩ := Option.map_eq_some_iff.mp allotted
  have mem : s.runId ∈ ((c.registry (i + 1)).toList.map Runner.runId).toFinset :=
    List.mem_toFinset.mpr (List.mem_map_of_mem (List.mem_of_find?_eq_some hs))
  have length : (c.registry (i + 1)).toList.length = live.length := by
    rw [Registry.toList, List.length_map]
    exact layout.byRunId.toList_perm.length_eq
  have all := List.toFinset_card_le ((c.registry (i + 1)).toList.map Runner.runId)
  have room := layout.length_add
  rw [List.length_map, length] at all
  rw [Finset.card_erase_of_mem mem]
  omega

theorem others_of_allotted (first : c.allotted? i = some id) (again : c.allotted? j = some id)
    (hij : i < j) : d.maxRunId.toNat - d.capacity ≤ c.others id i j := by
  have range := c.range_of_allotted h first
  have pos : 0 < d.maxRunId.toNat := by omega
  obtain ⟨ids, hids⟩ : ∃ ids, ids = Roster.ring d.maxRunId 0 d.maxRunId.toNat := ⟨_, rfl⟩
  have members : ∀ x, x ∈ ids ↔ 1 ≤ x.toNat ∧ x.toNat ≤ d.maxRunId.toNat := by
    intro x
    rw [hids]
    exact Roster.mem_ring pos
  have count : (ids.toFinset.erase id).card = d.maxRunId.toNat - 1 := by
    have nodup : ids.Nodup := hids ▸ Roster.nodup_ring (Nat.le_refl _)
    rw [Finset.card_erase_of_mem (List.mem_toFinset.mpr ((members id).mpr range)),
      List.toFinset_card_of_nodup nodup, hids, Roster.length_ring]
  -- Whoever holds an id that is never allotted in between holds it right after the first allotment.
  have cover : ids.toFinset.erase id ⊆
      ((Finset.Ioo i j).filter fun k => c.allotted? k ≠ none ∧ c.allotted? k ≠ some id).image
        (fun k => (c.allotted? k).getD id) ∪
      (((c.registry (i + 1)).toList.map Runner.runId).toFinset.erase id) := by
    intro x hx
    obtain ⟨hne, hx⟩ := Finset.mem_erase.mp hx
    have rangeX := (members x).mp (List.mem_toFinset.mp hx)
    rcases c.met_between h first again hij hne rangeX with ⟨k, hik, hkj, allotted⟩ | later
    · refine Finset.mem_union_left _ (Finset.mem_image.mpr ⟨k, ?_, by simp [allotted]⟩)
      exact Finset.mem_filter.mpr ⟨Finset.mem_Ioo.mpr ⟨hik, hkj⟩, by simp [allotted, hne]⟩
    · obtain ⟨k, hik, _, _, n, held⟩ := later
      obtain ⟨s, hs, rfl⟩ := held (i + 1) (by omega) (by omega)
      refine Finset.mem_union_right _ (Finset.mem_erase.mpr ⟨hne, List.mem_toFinset.mpr ?_⟩)
      exact List.mem_map_of_mem (List.mem_of_find?_eq_some hs)
  have total := (Finset.card_le_card cover).trans (Finset.card_union_le _ _)
  have allotments : _ ≤ c.others id i j := Finset.card_image_le (f := fun k => (c.allotted? k).getD id)
  have held := c.card_held h first
  have capacity := d.capacity_pos
  omega

end

/-- A run id is used again as late as the ring allows: until then every other id is allotted, or it
is passed while a runner holds it that has lived since before. So at least as many runners are
allocated in between as there are more ids than slots. -/
theorem reuse_of_course {capacity buckets : UInt64} {maxRunId : UInt32} {home : String}
    {r : Registry} (created : Registry.create capacity maxRunId buckets = .ok r)
    (begins : c.start = .ofSupervisor ⟨home, r⟩) (first : c.allotted? i = some id)
    (again : c.allotted? j = some id) (hij : i < j) :
    (∀ x : RunId, 1 ≤ x.toNat → x.toNat ≤ maxRunId.toNat → x ≠ id →
      (∃ k, i < k ∧ k < j ∧ c.allotted? k = some x) ∨
        ∃ k, i < k ∧ k ≤ j ∧ c.Passes k x ∧ c.Held x i (k + 1)) ∧
    maxRunId.toNat - capacity.toNat ≤ c.others id i j := by
  obtain ⟨d, h, _, hcapacity, rfl⟩ := sound_of_create created begins
  constructor
  · intro x low high hne
    exact c.met_between h first again hij hne ⟨low, high⟩
  · rw [← hcapacity]
    exact c.others_of_allotted h first again hij

/-- The second run id comes back after the third one, whose launch failed, and after the first one
was passed. -/
def lapped : Course := ofMoves (.ofSupervisor ⟨"/home", .empty 2 3 2⟩) [
  .request (.start notes), .launched (.ok ⟨⟨7⟩, ⟨7⟩⟩), .request (.start notes),
  .launched (.ok ⟨⟨8⟩, ⟨8⟩⟩), .notify ⟨8⟩ (.exited 0), .request (.start notes),
  .launched (.error .outOfMemory), .request (.start notes)]

theorem reuse_lapped : lapped.allotted? 2 = some ⟨2⟩ ∧ lapped.allotted? 7 = some ⟨2⟩ ∧
    (∀ x : RunId, 1 ≤ x.toNat → x.toNat ≤ (3 : UInt32).toNat → x ≠ ⟨2⟩ →
      (∃ k, 2 < k ∧ k < 7 ∧ lapped.allotted? k = some x) ∨
        ∃ k, 2 < k ∧ k ≤ 7 ∧ lapped.Passes k x ∧ lapped.Held x 2 (k + 1)) ∧
    (3 : UInt32).toNat - (2 : UInt64).toNat ≤ lapped.others ⟨2⟩ 2 7 := by
  have first : lapped.allotted? 2 = some ⟨2⟩ := by decide +kernel
  have again : lapped.allotted? 7 = some ⟨2⟩ := by decide +kernel
  exact ⟨first, again, reuse_of_course
    (show Registry.create 2 3 2 = .ok (.empty 2 3 2) from rfl) rfl first again (by decide)⟩

end AppSupervisor.Course
