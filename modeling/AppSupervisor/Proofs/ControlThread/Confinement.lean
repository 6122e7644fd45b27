import AppSupervisor.Proofs.ControlThread.Indexes
import AppSupervisor.Proofs.ControlThread.Interruption
import AppSupervisor.Proofs.ControlThread.Lifecycle

namespace AppSupervisor

/-- If the slot has the runner with that serial number, then that has been launched and its leader is
known. -/
def Registry.Bears (r : Registry) (i n : Nat) (leader : Pid) : Prop :=
  (r.slot i).serial = n → (r.slot i).leader = leader ∧ (r.slot i).state ≠ .starting

/-- The slot that a request remembers has another runner, which is in the state that the request
found or gets the second signal. -/
def Registry.Mistakes (r : Registry) (p : Signalling) (s : Runner) : Prop :=
  (r.slot p.slot).serial ≠ s.serial ∧
    (p.slot ∉ r.free ∧ (r.slot p.slot).state = p.before ∨
      (p.before = .stopped ∧ p.signal = .term) ∧ (r.slot p.slot).leader ≠ s.leader)

namespace Registry.Bears

variable {d : Measures} {r : Registry} {live grouped : List Nat} {i n : Nat} {leader : Pid}

theorem updateState {j : Nat} {f : RunState → RunState} (bears : r.Bears i n leader)
    (unstarted : (r.slot j).state ≠ .starting → f (r.slot j).state ≠ .starting) :
    (r.updateState j f).Bears i n leader := by
  rw [Bears, slot_updateState]
  split
  next he =>
    obtain ⟨rfl, _⟩ := he
    intro hn
    obtain ⟨leads, launched⟩ := bears hn
    exact ⟨leads, unstarted launched⟩
  next => exact bears

theorem release (bears : r.Bears i n leader) (j : Nat) : (r.release j).Bears i n leader := by
  rw [Bears, slot_release]
  split
  next =>
    intro hn
    exact ⟨(bears hn).1, by simp⟩
  next => exact bears

theorem reclaim (bears : r.Bears i n leader) (h : r.Layout d live grouped) :
    r.reclaim.1.Bears i n leader := by
  rw [Bears, h.slot_reclaim i]
  exact bears

end Registry.Bears

namespace ControlThread

/-- The rest of a control request, from the answer to its call on, concerns one runner only. -/
structure Confined (t : ControlThread) (s : Runner) (rest : ControlThread × Outcome) : Prop where
  states : ∀ n ≠ s.serial, rest.1.registry.runner? n = t.registry.runner? n
  signals : ∀ leader signal, rest.2 = .signalling leader signal → leader = s.leader
  ending : ∀ leader signal, rest.2 = .signalling leader signal → ∀ u, Reaches rest.1 u →
    u.waiting = rest.1.waiting → ∀ groupOf answer,
    (u.step groupOf (.signalled answer)).1.registry = u.registry ∧
      (u.step groupOf (.signalled answer)).2 = .replied (.ok .accepted)

variable {d : Measures} {groupOf : Pid → Option Pid} {t t' u v : ControlThread} {m : Move}
  {q : Request} {id : RunId} {signal signal' : Signal} {after : RunState} {p : Signalling}
  {rest : List Waiting} {live grouped : List Nat} {i n : Nat} {leader : Pid} {s : Runner}

theorem Effect.bears (e : Effect groupOf t m t') (h : t.Sound d live grouped)
    (lt : n < t.registry.allocations) (bears : t.registry.Bears i n leader) :
    t'.registry.Bears i n leader := by
  obtain ⟨_, _, _, allocations, _⟩ := h.registry.layout.reclaim h.registry.unended
  have reclaimed := bears.reclaim h.registry.layout
  cases e with
  | idle | asked | unsignalled | continued => exact bears
  | reclaimed => exact reclaimed
  | @allocated _ r p a _ =>
    -- The new runner is a later one.
    by_cases he : i = p.slot
    · have reclaims := h.registry.reclaim.layout.slot_allocated a
      intro hn
      rw [he, registry_update, reclaims] at hn
      exact absurd (hn.symm.trans allocations) (Nat.ne_of_lt lt)
    · rw [registry_update, Registry.Bears, a.slot_of_ne he]
      exact reclaimed
  | removed | failed => exact bears.release _
  | @ended _ _ j _ _ =>
    have erased : (t.registry.eraseGroup j).Bears i n leader := bears
    exact erased.updateState (by simp)
  | reported found running =>
    obtain ⟨hg, _⟩ := h.registry.layout.mem_of_slotOfPid? found
    have process := RunState.hasProcess_afterReport (h.registry.hasProcess hg) running
    exact bears.updateState fun _ => RunState.ne_starting process
  | @launched children p _ top =>
    -- The runner has been launched before, so it is not the one whose launch ends.
    obtain ⟨_, _, starting⟩ := h.launching (top ▸ List.mem_cons_self)
    rw [registry_update, Registry.Bears, Registry.serial_insertGroup]
    intro hn
    have hne : i ≠ p.slot := by
      rintro rfl
      exact (bears hn).2 starting
    rw [Registry.slot_insertGroup_of_ne hne]
    exact bears hn
  | @signalled p _ _ top _ =>
    have valid := h.signals p (top ▸ List.mem_cons_self)
    refine bears.updateState fun unstarted => ?_
    split
    next => exact valid.next.ne_starting
    next => exact unstarted

theorem Reaches.bears (h : Reaches t u) (sound : t.Sound d live grouped)
    (lt : n < t.registry.allocations) (bears : t.registry.Bears i n leader) :
    u.registry.Bears i n leader := by
  induction h with
  | refl => exact bears
  | @step w reaches groupOf m ih =>
    obtain ⟨_, _, sound'⟩ := reaches.sound sound
    have lt' := Nat.lt_of_lt_of_le lt (reaches.allocations_le sound)
    exact (effect_step groupOf w m).bears sound' lt' ih

theorem transition_confined (h : t.Sound d live grouped) (hi : p.slot < d.capacity)
    (differ : p.before ≠ p.after) :
    (∀ n ≠ s.serial, (t.registry.transition p.slot p.before p.after).runner? n =
      t.registry.runner? n) ↔
    ¬((t.registry.slot p.slot).serial ≠ s.serial ∧ p.slot ∉ t.registry.free ∧
      (t.registry.slot p.slot).state = p.before) := by
  have layout := h.registry.layout
  by_cases used : p.slot ∈ live
  · have inUse := (layout.mem_live.mp used).2
    constructor
    · rintro same ⟨hne, _, found⟩
      have moved := layout.state?_transition used p.before p.after
      rw [Registry.state?, same _ hne, layout.runner?_slot used, if_pos found] at moved
      simp [found, differ] at moved
    · intro other n hn
      by_cases hne : n = (t.registry.slot p.slot).serial
      · have left : (t.registry.slot p.slot).state ≠ p.before := fun found =>
          other ⟨hne ▸ hn, inUse, found⟩
        rw [Registry.transition_eq_self left]
      · exact layout.runner?_transition_of_ne used hne p.before p.after
  · have free : p.slot ∈ t.registry.free := (layout.lt_iff.mp hi).resolve_left used
    refine ⟨fun _ mistaken => mistaken.2.1 free, fun _ n _ => ?_⟩
    exact layout.runner?_updateState_of_not_mem used _

theorem confined_replied {r : Registry} {result : Except Error Reply} :
    t.Confined s (t.update r rest, .replied result) ↔
      ∀ n ≠ s.serial, r.runner? n = t.registry.runner? n :=
  ⟨fun confined => confined.states, fun states => ⟨states, nofun, nofun⟩⟩

theorem confined_continuing {r : Registry} :
    t.Confined s (t.update r (.continuing :: rest), .signalling leader .cont) ↔
      (∀ n ≠ s.serial, r.runner? n = t.registry.runner? n) ∧ leader = s.leader := by
  constructor
  · exact fun confined => ⟨confined.states, confined.signals _ _ rfl⟩
  · rintro ⟨states, leads⟩
    refine ⟨states, fun _ _ same => ?_, fun _ _ _ u _ waits groupOf answer => ?_⟩
    · cases same
      exact leads
    · rw [step_continued waits]
      exact ⟨rfl, rfl⟩

theorem confined_signalled_iff (top : t.waiting = .signalling p :: rest)
    (h : t.Sound d live grouped) (hi : p.slot < d.capacity) (differ : p.before ≠ p.after)
    (bears : t.registry.Bears p.slot s.serial s.leader) (answer : Except Error Unit) :
    t.Confined s (t.step groupOf (.signalled answer)) ↔
      ¬(answer = .ok () ∧ t.registry.Mistakes p s) := by
  have states := transition_confined (s := s) h hi differ
  cases answer with
  | error e =>
    rw [step_refused top, confined_replied]
    simp
  | ok _ =>
    by_cases twice : p.before = .stopped ∧ p.signal = .term
    · have leads : (t.registry.slot p.slot).leader ≠ s.leader →
          (t.registry.slot p.slot).serial ≠ s.serial := fun other same => other (bears same).1
      rw [step_sent_twice top twice, confined_continuing, states]
      constructor
      · rintro ⟨unmoved, same⟩ ⟨_, other, moved | ⟨_, lost⟩⟩
        · exact unmoved ⟨other, moved⟩
        · exact lost same
      · intro right
        refine ⟨fun ⟨other, moved⟩ => right ⟨rfl, other, Or.inl moved⟩, ?_⟩
        by_contra lost
        exact right ⟨rfl, leads lost, Or.inr ⟨twice, lost⟩⟩
    · rw [step_sent top twice, confined_replied, states, Registry.Mistakes]
      simp [twice]

variable {capacity buckets : UInt64} {maxRunId : UInt32} {home : String} {r : Registry}

/-- A control request finds a runner and asks for its signal; any moves follow, and then the call is
answered. Up to there the slot may have gone to a later runner, and the rest of the request is
confined to the one it found exactly if it does not take the later one for it. -/
theorem confined_iff (created : Registry.create capacity maxRunId buckets = .ok r)
    (h : Reaches (ofSupervisor ⟨home, r⟩) t) (control : q.Control id signal after)
    (asks : t.step groupOf (.request q) = (u, .signalling leader signal'))
    (inside : Reaches u v) (back : v.waiting = u.waiting) :
    ∃ s p, t.registry.lookupRunId id = some s ∧ leader = s.leader ∧
      t.Asked id p ∧ p.signal = signal ∧ u.waiting = .signalling p :: t.waiting ∧
      ∀ groupOf answer, v.Confined s (v.step groupOf (.signalled answer)) ↔
        ¬(answer = .ok () ∧ v.registry.Mistakes p s) := by
  obtain ⟨d, live, grouped, sound, _⟩ := sound_of_create created h
  have begins : t.Begins id signal after (t.step groupOf (.request q)) := begins_step control
  have sound' := (effect_step groupOf t (.request q)).sound sound
  rw [asks] at begins sound'
  cases begins with
  | @asks p asked hs ha =>
    obtain ⟨live', grouped', sound'⟩ := sound'
    obtain ⟨live'', grouped'', later⟩ := inside.sound sound'
    have layout := sound.registry.layout
    obtain ⟨hi, _⟩ := asked.inUse sound
    have bears : t.registry.Bears p.slot (t.registry.slot p.slot).serial
        (t.registry.slot p.slot).leader := by
      refine fun _ => ⟨rfl, ?_⟩
      rw [asked.before]
      exact RunState.ne_starting (asked.valid control hs ha).before
    refine ⟨_, p, asked.named sound, rfl, asked, hs, rfl, fun groupOf answer => ?_⟩
    exact confined_signalled_iff back later (layout.lt_of_mem hi) asked.differ
      (inside.bears sound' (layout.serial_lt _ hi) bears) answer

/-- While its call to stop the only runner is answered, the runner ends and another one takes its
slot. -/
def replacement : List Move := [
  .request (.start notes), .launched (.ok ⟨⟨7⟩, ⟨7⟩⟩), .request (.stop ⟨1⟩), .notify ⟨7⟩ (.exited 0),
  .request (.start notes), .launched (.ok ⟨⟨8⟩, ⟨8⟩⟩)]

def replacedTo (count : Nat) : ControlThread :=
  (ofSupervisor ⟨"/home", .empty 1 4 1⟩).run (fun _ => none) (replacement.take count)

theorem confined_freed : (replacedTo 4).registry.state? 0 = some .terminated ∧
    (replacedTo 4).Confined ((replacedTo 2).registry.slot 0)
      ((replacedTo 4).step (fun _ => none) (.signalled (.ok ()))) := by
  obtain ⟨s, p, found, _, _, _, waits, confined⟩ := confined_iff
    (show Registry.create 1 4 1 = .ok (.empty 1 4 1) from rfl) (reaches_run _ _ (replacement.take 2))
    (.stop ⟨1⟩) (show (replacedTo 2).step (fun _ => none) _ = (replacedTo 3, .signalling ⟨7⟩ .stop)
      from rfl) (reaches_run (fun _ => none) _ [.notify ⟨7⟩ (.exited 0)]) rfl
  obtain rfl : (replacedTo 2).registry.slot 0 = s := Option.some.inj (.trans (by rfl) found)
  cases (show [Waiting.signalling ⟨0, .stop, .running, .stopped⟩] = [.signalling p] from waits)
  exact ⟨by decide +kernel, (confined _ _).mpr fun mistaken => mistaken.2.1 rfl⟩

theorem replaced_stopped :
    Registry.create 1 4 1 = .ok (.empty 1 4 1) ∧
    Reaches (ofSupervisor ⟨"/home", .empty 1 4 1⟩) (replacedTo 2) ∧
    (replacedTo 2).step (fun _ => none) (.request (.stop ⟨1⟩)) =
      (replacedTo 3, .signalling ⟨7⟩ .stop) ∧
    Reaches (replacedTo 3) (replacedTo 6) ∧ (replacedTo 6).waiting = (replacedTo 3).waiting ∧
    (replacedTo 6).registry.state? 1 = some .running ∧
    ((replacedTo 6).step (fun _ => none) (.signalled (.ok ()))).1.registry.state? 1 =
      some .stopped :=
  ⟨rfl, reaches_run _ _ _, rfl, reaches_run (fun _ => none) (replacedTo 3)
    [.notify ⟨7⟩ (.exited 0), .request (.start notes), .launched (.ok ⟨⟨8⟩, ⟨8⟩⟩)], rfl,
    by decide +kernel, by decide +kernel⟩

end ControlThread
end AppSupervisor
