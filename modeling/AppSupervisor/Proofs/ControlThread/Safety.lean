import AppSupervisor.Proofs.ControlThread.Allocation
import AppSupervisor.Proofs.Registry.Safety

namespace AppSupervisor

namespace ControlThread

/-- The slots that the answers of the launcher are about. -/
structure Answerable (t : ControlThread) (capacity : Nat) : Prop where
  launching : ∀ p, .launching p ∈ t.waiting → p.slot < capacity ∧ p.slot ∉ t.registry.free
  signalling : ∀ p, .signalling p ∈ t.waiting → p.slot < capacity

variable {d : Measures} {groupOf : Pid → Option Pid} {t t' : ControlThread} {m : Move}
  {live grouped : List Nat}

theorem Effect.signalling_lt (e : Effect groupOf t m t') (h : t.Sound d live grouped)
    (inside : ∀ p, .signalling p ∈ t.waiting → p.slot < d.capacity) :
    ∀ p, .signalling p ∈ t'.waiting → p.slot < d.capacity := by
  intro p hp
  cases e with
  | idle | reclaimed | removed | ended | reported => exact inside p hp
  | allocated =>
    rcases List.mem_cons.mp hp with same | hp
    · cases same
    · exact inside p hp
  | asked _ found =>
    rcases List.mem_cons.mp hp with same | hp
    · cases same
      exact h.registry.layout.lt_of_mem (h.registry.layout.slotOfRunId?_eq_some.mp found).1
    · exact inside p hp
  | launched top | failed top | unsignalled top | continued top =>
    exact inside p (top ▸ List.mem_cons_of_mem _ hp)
  | signalled top left =>
    rcases left with rfl | rfl
    · exact inside p (top ▸ List.mem_cons_of_mem _ hp)
    · rcases List.mem_cons.mp hp with same | hp
      · cases same
      · exact inside p (top ▸ List.mem_cons_of_mem _ hp)

theorem Reaches.signalling_lt (h : Reaches t t') (sound : t.Sound d live grouped)
    (inside : ∀ p, .signalling p ∈ t.waiting → p.slot < d.capacity) :
    ∀ p, .signalling p ∈ t'.waiting → p.slot < d.capacity := by
  induction h with
  | refl => exact inside
  | step reaches groupOf m ih =>
    obtain ⟨_, _, sound'⟩ := reaches.sound sound
    exact (effect_step groupOf _ m).signalling_lt sound' ih

theorem Reaches.answerable (h : Reaches t t') (sound : t.Sound d live grouped)
    (first : t.waiting = []) : t'.Answerable d.capacity := by
  obtain ⟨_, _, sound'⟩ := h.sound sound
  refine ⟨fun p hp => ?_, h.signalling_lt sound fun p hp => ?_⟩
  · exact sound'.registry.layout.mem_live.mp (sound'.launching hp).1
  · rw [first] at hp
    cases hp

end ControlThread

open ControlThread (Reaches ofSupervisor reaches_run nestedTo)

namespace Registry

variable {d : Measures} {r x : Registry}

theorem Reached.refines (h : (empty d.capacity d.maxRunId d.buckets).Reached x) :
    ∃ live grouped a, x.Refines d live grouped a := by
  cases h with
  | performed ops =>
    obtain ⟨_, live, grouped, last⟩ := (refines_empty d).performAll ops
    exact ⟨live, grouped, _, last⟩
  | @served home t reaches =>
    obtain ⟨live, grouped, last⟩ := reaches.sound (ControlThread.sound_empty d home)
    exact ⟨live, grouped, _, last.registry.refines⟩

/-- In every state that operations, requests, status changes and answers of the launcher lead to,
nothing that is done to a registry fails to end or to find what it needs. -/
theorem safe_of_create {capacity buckets : UInt64} {maxRunId : UInt32}
    (created : create capacity maxRunId buckets = .ok r) :
    (∀ x, r.Reached x → x.Safe capacity.toNat) ∧
    ∀ home t, Reaches (ofSupervisor ⟨home, r⟩) t → t.Answerable capacity.toNat := by
  have linked : capacity.toNat < 4294967295 := by
    by_contra far
    obtain ⟨a, rejected⟩ := create_of_not_admits fun admits => far admits.linked
    rw [rejected] at created
    cases created
  obtain ⟨d, hcapacity, hmax, hbuckets, rfl⟩ := create_eq_ok created
  rw [← hcapacity, ← hmax, ← hbuckets]
  rw [← hcapacity] at linked
  refine ⟨fun x reached => ?_, fun home t reaches => ?_⟩
  · obtain ⟨_, _, _, refines⟩ := reached.refines
    exact refines.safe linked
  · exact reaches.answerable (ControlThread.sound_empty d home) rfl

theorem safe_of_create_nested : create 3 4 2 = .ok (empty 3 4 2) ∧
    ((empty 3 4 2).performAll crowded).1.Safe 3 ∧
    (nestedTo 6).registry.Safe 3 ∧ (nestedTo 2).Answerable 3 := by
  have created : create 3 4 2 = .ok (empty 3 4 2) := rfl
  obtain ⟨safe, answerable⟩ := safe_of_create created
  exact ⟨created, safe _ (.performed crowded), safe _ (.served (reaches_run _ _ _)),
    answerable "/home" (nestedTo 2) (reaches_run _ _ _)⟩

end Registry
end AppSupervisor
