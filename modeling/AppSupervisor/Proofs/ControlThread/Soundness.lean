import AppSupervisor.Proofs.ControlThread.Effect
import AppSupervisor.Proofs.Registry.Soundness

namespace AppSupervisor

def Waiting.startingSlot? : Waiting → Option Nat
  | launching p => some p.slot
  | signalling _ | continuing => none

/-- A signal was asked for to take a runner along an edge of its lifecycle, between two states in
which it has a process. -/
structure Signalling.Valid (p : Signalling) : Prop where
  before : p.before.hasProcess
  after : p.after.hasProcess
  next : p.before.Next p.after

namespace ControlThread

/-- The registry is sound, each launch under way is that of a Starting runner of its own, and the
signals under way are valid. -/
structure Sound (d : Measures) (t : ControlThread) (live grouped : List Nat) : Prop where
  registry : t.registry.Sound d live grouped (t.waiting.filterMap Waiting.startingSlot?)
  signals : ∀ p, .signalling p ∈ t.waiting → p.Valid

variable {d : Measures} {groupOf : Pid → Option Pid} {t t' : ControlThread} {m : Move}
  {live grouped : List Nat}

theorem sound_empty (d : Measures) (home : String) :
    (ofSupervisor ⟨home, .empty d.capacity d.maxRunId d.buckets⟩).Sound d [] [] :=
  ⟨Registry.sound_empty d, by simp [ofSupervisor]⟩

theorem Sound.launching {p : Launching} (h : t.Sound d live grouped)
    (waits : .launching p ∈ t.waiting) :
    p.slot ∈ live ∧ p.slot ∉ grouped ∧ (t.registry.slot p.slot).state = .starting := by
  have mem : p.slot ∈ t.waiting.filterMap Waiting.startingSlot? :=
    List.mem_filterMap.mpr ⟨_, waits, rfl⟩
  obtain ⟨hi, starting⟩ := (h.registry.mem_starting p.slot).mp mem
  exact ⟨hi, h.registry.not_mem_grouped (by simp [starting, RunState.hasProcess]), starting⟩

theorem valid_of_control {q : Request} {id : RunId} {p : Signalling}
    (control : q.Control id p.signal p.after)
    (signalled : p.before = .running ∨ p.before = .stopped) (differ : p.before ≠ p.after) :
    p.Valid := by
  obtain ⟨slot, signal, before, after⟩ := p
  have process : before.hasProcess := by
    rcases signalled with rfl | rfl <;> rfl
  cases control with
  | stop =>
    rcases signalled with rfl | rfl
    · exact ⟨process, rfl, .stopped⟩
    · exact absurd rfl differ
  | resume =>
    rcases signalled with rfl | rfl
    · exact absurd rfl differ
    · exact ⟨process, rfl, .continued⟩
  | terminate => exact ⟨process, rfl, .asked signalled⟩

theorem transition_sound {r : Registry} {starting : List Nat} {p : Signalling} (valid : p.Valid)
    (h : r.Sound d live grouped starting) :
    (r.transition p.slot p.before p.after).Sound d live grouped starting := by
  refine h.updateState ?_ ?_
  · split
    next he => rw [he, valid.before, valid.after]
    next => rfl
  · split
    next he =>
      simp [he, valid.next.ne_starting, RunState.ne_starting valid.before]
    next => rfl

def indexes? (t : ControlThread) : Move → Option Nat
  | .launched (.ok _) =>
    match t.waiting with
    | .launching p :: _ => some (t.registry.slot p.slot).serial
    | _ => none
  | _ => none

theorem sublist_serials {r r' : Registry} {grouped' : List Nat} (ns : List Nat)
    (sub : grouped'.Sublist grouped) (same : ∀ i ∈ grouped, (r'.slot i).serial = (r.slot i).serial) :
    (grouped'.map fun i => (r'.slot i).serial).Sublist
      (ns ++ grouped.map fun i => (r.slot i).serial) := by
  rw [List.map_congr_left fun i hi => same i (sub.subset hi)]
  exact (sub.map _).trans (List.sublist_append_right _ _)

theorem Effect.sound_order (e : Effect groupOf t m t') (h : t.Sound d live grouped) :
    ∃ live' grouped', t'.Sound d live' grouped' ∧
      (grouped'.map fun i => (t'.registry.slot i).serial).Sublist
        ((t.indexes? m).toList ++ grouped.map fun i => (t.registry.slot i).serial) := by
  obtain ⟨registry, signals⟩ := h
  have reclaimed : ∀ i ∈ grouped,
      (t.registry.reclaim.1.slot i).serial = (t.registry.slot i).serial := fun i _ => by
    rw [registry.layout.slot_reclaim i]
  cases e with
  | idle => exact ⟨live, grouped, ⟨registry, signals⟩, List.sublist_append_right _ _⟩
  | reclaimed =>
    exact ⟨_, grouped, ⟨registry.reclaim, signals⟩, sublist_serials _ (.refl _) reclaimed⟩
  | allocated a id =>
    refine ⟨_, grouped, ⟨registry.reclaim.allocate a, fun p hp => ?_⟩,
      sublist_serials _ (.refl _) fun i hi => ?_⟩
    · rcases List.mem_cons.mp hp with he | hp
      · cases he
      · exact signals p hp
    · rw [← reclaimed i hi, registry_update,
        registry.reclaim.layout.slot_allocate a (registry.reclaim.layout.grouped_live i hi)]
  | asked control found before signalled differ =>
    refine ⟨live, grouped, ⟨registry, fun p hp => ?_⟩, List.sublist_append_right _ _⟩
    rcases List.mem_cons.mp hp with he | hp
    · cases he
      exact valid_of_control control signalled differ
    · exact signals p hp
  | removed found ended =>
    have hi := (registry.layout.slotOfRunId?_eq_some.mp found).1
    exact ⟨_, grouped, ⟨registry.release_terminated hi ended, signals⟩,
      sublist_serials _ (.refl _) fun i _ => Registry.serial_release _ _ i⟩
  | ended found terminal =>
    have hi := (registry.layout.mem_of_slotOfPid? found).1
    exact ⟨live, _, ⟨registry.finish hi, signals⟩,
      sublist_serials _ List.filter_sublist fun i _ => Registry.serial_updateState _ _ i _⟩
  | reported found running =>
    have hi := (registry.layout.mem_of_slotOfPid? found).1
    exact ⟨live, grouped, ⟨registry.report hi running, signals⟩,
      sublist_serials _ (.refl _) fun i _ => Registry.serial_updateState _ _ i _⟩
  | @launched children p rest top =>
    have own : t.indexes? (.launched (.ok children)) = some (t.registry.slot p.slot).serial := by
      simp only [indexes?, top]
    rw [top] at registry signals
    refine ⟨live, _, ⟨registry.insertGroup _, fun p hp => signals p (List.mem_cons_of_mem _ hp)⟩, ?_⟩
    simp only [own, Option.toList_some, registry_update, Registry.serial_insertGroup]
    exact .refl _
  | failed top =>
    rw [top] at registry signals
    exact ⟨_, grouped,
      ⟨registry.release_starting, fun p hp => signals p (List.mem_cons_of_mem _ hp)⟩,
      sublist_serials _ (.refl _) fun i _ => Registry.serial_release _ _ i⟩
  | unsignalled top =>
    rw [top] at registry signals
    exact ⟨live, grouped, ⟨registry, fun p hp => signals p (List.mem_cons_of_mem _ hp)⟩,
      List.sublist_append_right _ _⟩
  | @signalled p rest waiting top left =>
    rw [top] at registry signals
    have kept := transition_sound (signals p (by simp)) registry
    refine ⟨live, grouped, ⟨?_, fun p hp => ?_⟩,
      sublist_serials _ (.refl _) fun i _ => Registry.serial_updateState _ _ i _⟩
    · rcases left with rfl | rfl
      · exact kept
      · exact kept
    · rcases left with rfl | rfl
      · exact signals p (List.mem_cons_of_mem _ hp)
      · rcases List.mem_cons.mp hp with he | hp
        · cases he
        · exact signals p (List.mem_cons_of_mem _ hp)
  | continued top =>
    rw [top] at registry signals
    exact ⟨live, grouped, ⟨registry, fun p hp => signals p (List.mem_cons_of_mem _ hp)⟩,
      List.sublist_append_right _ _⟩

theorem Effect.sound (e : Effect groupOf t m t') (h : t.Sound d live grouped) :
    ∃ live' grouped', t'.Sound d live' grouped' := by
  obtain ⟨live', grouped', sound, _⟩ := e.sound_order h
  exact ⟨live', grouped', sound⟩

theorem Reaches.sound (h : Reaches t t') (sound : t.Sound d live grouped) :
    ∃ live' grouped', t'.Sound d live' grouped' := by
  induction h with
  | refl => exact ⟨live, grouped, sound⟩
  | step _ groupOf m ih =>
    obtain ⟨live', grouped', sound'⟩ := ih
    exact (effect_step groupOf _ m).sound sound'

/-- Every thread that moves lead to from a new supervisor is sound. -/
theorem sound_of_create {capacity buckets : UInt64} {maxRunId : UInt32} {home : String}
    {r : Registry} (created : Registry.create capacity maxRunId buckets = .ok r)
    (h : Reaches (ofSupervisor ⟨home, r⟩) t) :
    ∃ (d : Measures) (live grouped : List Nat), t.Sound d live grouped ∧
      d.capacity = capacity.toNat ∧ d.maxRunId = maxRunId ∧ d.buckets = buckets.toNat := by
  obtain ⟨d, hcapacity, hmax, hbuckets, rfl⟩ := Registry.create_eq_ok created
  rw [← hcapacity, ← hmax, ← hbuckets] at h
  obtain ⟨live, grouped, sound⟩ := h.sound (sound_empty d home)
  exact ⟨d, live, grouped, sound, hcapacity, hmax, hbuckets⟩

end ControlThread
end AppSupervisor
