import AppSupervisor.Proofs.ControlThread.Soundness
import AppSupervisor.Proofs.Registry.Instances

namespace AppSupervisor

/-- A process is the runner's own if it leads its group, or is the application in its group. -/
def Runner.Owns (groupOf : Pid → Option Pid) (s : Runner) (pid : Pid) : Prop :=
  s.leader = pid ∨ groupOf pid = some s.leader ∧ s.app = pid

namespace ControlThread

/-- What a move may do to the state of a runner; `none` stands for a runner that is not live. -/
inductive Passage (groupOf : Pid → Option Pid) (t : ControlThread) (n : Nat) :
    Move → Option RunState → Option RunState → Prop
  | absent (m : Move) : Passage groupOf t n m none none
  | born (manifest : Manifest) (new : n = t.registry.allocations) :
      Passage groupOf t n (.request (.start manifest)) none (some .starting)
  | kept (m : Move) (s : RunState) : Passage groupOf t n m (some s) (some s)
  | moved {m : Move} {s s' : RunState} (next : s.Next s') (unended : s' ≠ .terminated) :
      Passage groupOf t n m (some s) (some s')
  | ended {pid : Pid} {event : ChildEvent} {s : RunState} {x : Runner}
      (found : t.registry.runner? n = some x) (owned : x.Owns groupOf pid)
      (terminal : event.isTerminal) (next : s.Next .terminated) :
      Passage groupOf t n (.notify pid event) (some s) (some .terminated)
  | reclaimed {m : Move} (h : m = .request .collect ∨ ∃ manifest, m = .request (.start manifest)) :
      Passage groupOf t n m (some .terminated) none
  | removed {x : Runner} (found : t.registry.runner? n = some x) :
      Passage groupOf t n (.request (.remove x.runId)) (some .terminated) none
  | failed {e : Error} {p : Launching} {rest : List Waiting}
      (top : t.waiting = .launching p :: rest) (slot : (t.registry.slot p.slot).serial = n) :
      Passage groupOf t n (.launched (.error e)) (some .starting) none

variable {d : Measures} {groupOf : Pid → Option Pid} {t t' u v : ControlThread} {m : Move}
  {live grouped : List Nat} {i n : Nat} {o o' : Option RunState}

theorem passage_same (o : Option RunState) : Passage groupOf t n m o o := by
  cases o with
  | none => exact .absent m
  | some s => exact .kept m s

theorem passage_slot (h : t.registry.Layout d live grouped) (hi : i ∈ live)
    (own : n = (t.registry.slot i).serial →
      Passage groupOf t n m (some (t.registry.slot i).state) o) :
    Passage groupOf t n m (t.registry.state? n)
      (if n = (t.registry.slot i).serial then o else t.registry.state? n) := by
  split
  next he =>
    have passage := own he
    rwa [← h.state?_slot hi, ← he] at passage
  next => exact passage_same _

theorem passage_reclaim (h : m = .request .collect ∨ ∃ manifest, m = .request (.start manifest))
    (o : Option RunState) : Passage groupOf t n m o (o.filter (· ≠ .terminated)) := by
  cases o with
  | none => exact .absent m
  | some s =>
    by_cases ended : s = .terminated
    · subst ended
      exact .reclaimed h
    · rw [Option.filter_some_pos (by simpa using ended)]
      exact .kept m s

theorem Effect.passage (e : Effect groupOf t m t') (h : t.Sound d live grouped) (n : Nat) :
    Passage groupOf t n m (t.registry.state? n) (t'.registry.state? n) := by
  have registry := h.registry
  have layout := registry.layout
  cases e with
  | idle | asked | unsignalled | continued => exact passage_same _
  | reclaimed collects =>
    rw [registry_update, layout.state?_reclaim registry.unended]
    exact passage_reclaim collects _
  | @allocated manifest _ _ a id =>
    obtain ⟨left, _, _, allocations, _⟩ := layout.reclaim registry.unended
    rw [registry_update, left.state?_allocate a, allocations]
    split
    next new =>
      rw [new, layout.state?_allocations]
      exact .born manifest rfl
    next =>
      rw [layout.state?_reclaim registry.unended]
      exact passage_reclaim (Or.inr ⟨manifest, rfl⟩) _
  | @removed _ i found ended =>
    obtain ⟨hi, rfl⟩ := layout.slotOfRunId?_eq_some.mp found
    have hg : i ∉ grouped := registry.not_mem_grouped (by simp [ended, RunState.hasProcess])
    rw [registry_update, layout.state?_release hi hg]
    refine passage_slot layout hi fun he => ?_
    rw [ended]
    exact .removed (he ▸ layout.runner?_slot hi)
  | @ended _ _ i found terminal =>
    obtain ⟨hg, owned⟩ := layout.mem_of_slotOfPid? found
    have hi := layout.grouped_live i hg
    rw [registry_update, (layout.eraseGroup i).state?_updateState hi]
    refine passage_slot layout hi fun he => ?_
    exact .ended (he ▸ layout.runner?_slot hi) owned terminal (.ended (registry.hasProcess hg))
  | reported found running =>
    obtain ⟨hg, _⟩ := layout.mem_of_slotOfPid? found
    have process := registry.hasProcess hg
    have still := RunState.hasProcess_afterReport process running
    have hi := layout.grouped_live _ hg
    rw [registry_update, layout.state?_updateState hi]
    refine passage_slot layout hi fun _ => ?_
    rcases RunState.afterReport_next process running with same | next
    · rw [same]
      exact .kept _ _
    · exact .moved next (RunState.ne_terminated still)
  | launched top =>
    obtain ⟨hi, hg, starting⟩ := h.launching (top ▸ List.mem_cons_self)
    rw [registry_update, layout.state?_insertGroup hi hg]
    refine passage_slot layout hi fun _ => ?_
    rw [starting]
    exact .moved .launched (by simp)
  | failed top =>
    obtain ⟨hi, hg, starting⟩ := h.launching (top ▸ List.mem_cons_self)
    rw [registry_update, layout.state?_release hi hg]
    refine passage_slot layout hi fun he => ?_
    rw [starting]
    exact .failed top he.symm
  | @signalled p _ _ top _ =>
    have valid := h.signals p (top ▸ List.mem_cons_self)
    rw [registry_update, Registry.transition]
    by_cases hi : p.slot ∈ live
    · rw [layout.state?_updateState hi]
      refine passage_slot layout hi fun _ => ?_
      split
      next before =>
        rw [before]
        exact .moved valid.next (RunState.ne_terminated valid.after)
      next => exact .kept _ _
    · rw [layout.state?_updateState_of_not_mem hi]
      exact passage_same _

theorem Effect.allots (e : Effect groupOf t m t') (h : t.Sound d live grouped) :
    (t'.registry.lastRunId = t.registry.lastRunId ∧
      t'.registry.allocations = t.registry.allocations) ∨
    ∃ manifest i, t.registry.reclaim.1.Allocates manifest t'.registry i := by
  obtain ⟨_, _, lastRunId, allocations, _⟩ := h.registry.layout.reclaim h.registry.unended
  cases e with
  | reclaimed => exact Or.inl ⟨lastRunId, allocations⟩
  | allocated a id => exact Or.inr ⟨_, _, a⟩
  | _ => exact Or.inl ⟨rfl, rfl⟩

theorem Effect.allocations_le (e : Effect groupOf t m t') (h : t.Sound d live grouped) :
    t.registry.allocations ≤ t'.registry.allocations := by
  obtain ⟨_, _, _, allocations, _⟩ := h.registry.layout.reclaim h.registry.unended
  rcases e.allots h with ⟨_, same⟩ | ⟨_, _, a⟩
  · omega
  · have next := a.allocations
    omega

theorem Reaches.allocations_le (h : Reaches t u) (sound : t.Sound d live grouped) :
    t.registry.allocations ≤ u.registry.allocations := by
  induction h with
  | refl => exact Nat.le_refl _
  | @step w reaches groupOf m ih =>
    obtain ⟨_, _, sound'⟩ := reaches.sound sound
    exact Nat.le_trans ih ((effect_step groupOf w m).allocations_le sound')

theorem Reaches.keeps {Q : Option RunState → Prop}
    (step : ∀ {groupOf t m o o'}, n < t.registry.allocations → Passage groupOf t n m o o' →
      Q o → Q o')
    (h : Reaches t u) (sound : t.Sound d live grouped) (lt : n < t.registry.allocations)
    (q : Q (t.registry.state? n)) : Q (u.registry.state? n) := by
  induction h with
  | refl => exact q
  | @step w reaches groupOf m ih =>
    obtain ⟨_, _, sound'⟩ := reaches.sound sound
    have lt' := Nat.lt_of_lt_of_le lt (reaches.allocations_le sound)
    exact step lt' ((effect_step groupOf w m).passage sound' n) ih

theorem Passage.of_none (p : Passage groupOf t n m none o) (lt : n < t.registry.allocations) :
    o = none := by
  cases p with
  | absent => rfl
  | born _ new => exact absurd new (Nat.ne_of_lt lt)

theorem Passage.ne_starting (p : Passage groupOf t n m o o') (lt : n < t.registry.allocations)
    (ho : o ≠ some .starting) : o' ≠ some .starting := by
  cases p with
  | absent => exact ho
  | born _ new => exact absurd new (Nat.ne_of_lt lt)
  | kept => exact ho
  | moved next _ => exact fun he => next.ne_starting (Option.some.inj he)
  | _ => simp

def Leaving (o : Option RunState) : Prop := ∀ s, o = some s → s.isGone

theorem Passage.leaving (p : Passage groupOf t n m o o') (lt : n < t.registry.allocations)
    (ho : Leaving o) : Leaving o' := by
  cases p with
  | absent => exact ho
  | born _ new => exact absurd new (Nat.ne_of_lt lt)
  | kept => exact ho
  | moved next unended => exact absurd (next.of_isGone (ho _ rfl)) unended
  | ended => exact fun _ he => Option.some.inj he ▸ rfl
  | _ => exact fun _ he => nomatch he

theorem Effect.suffix {p : Launching} {rest : List Waiting} (e : Effect groupOf t m t')
    (own : (.launching p :: rest) <:+ t.waiting) :
    (.launching p :: rest) <:+ t'.waiting ∨ t.waiting = .launching p :: rest ∧
      ((∃ children, m = .launched (.ok children) ∧
          t'.registry = t.registry.insertGroup p.slot children) ∨
        ∃ error, m = .launched (.error error) ∧ t'.registry = t.registry.release p.slot) := by
  -- A request that is answered was the last to call, so it is this launch or stands above it.
  have below : ∀ {top : Waiting} {left : List Waiting}, t.waiting = top :: left →
      .launching p :: rest = top :: left ∨ (.launching p :: rest) <:+ left := by
    intro top left hw
    exact List.suffix_cons_iff.mp (hw ▸ own)
  cases e with
  | idle | reclaimed | removed | ended | reported => exact Or.inl own
  | allocated | asked => exact Or.inl (own.trans (List.suffix_cons _ _))
  | launched top =>
    rcases below top with same | under
    · cases same
      exact Or.inr ⟨top, Or.inl ⟨_, rfl, rfl⟩⟩
    · exact Or.inl under
  | failed top =>
    rcases below top with same | under
    · cases same
      exact Or.inr ⟨top, Or.inr ⟨_, rfl, rfl⟩⟩
    · exact Or.inl under
  | unsignalled top | continued top =>
    rcases below top with same | under
    · cases same
    · exact Or.inl under
  | signalled top left =>
    rcases below top with same | under
    · cases same
    · rcases left with rfl | rfl
      · exact Or.inl under
      · exact Or.inl (under.trans (List.suffix_cons _ _))

theorem Effect.serial_eq (e : Effect groupOf t m t') (h : t.Sound d live grouped) (hi : i ∈ live)
    (unended : (t.registry.slot i).state ≠ .terminated) :
    (t'.registry.slot i).serial = (t.registry.slot i).serial := by
  obtain ⟨left, slots, _⟩ := h.registry.layout.reclaim h.registry.unended
  have reclaimed := slots i hi unended
  cases e with
  | idle | asked | unsignalled | continued => rfl
  | reclaimed => exact congrArg Runner.serial reclaimed
  | allocated a id =>
    have still : i ∈ live.filter fun i => (t.registry.slot i).state ≠ .terminated :=
      List.mem_filter.mpr ⟨hi, by simpa using unended⟩
    exact congrArg Runner.serial ((left.slot_allocate a still).trans reclaimed)
  | removed | ended | reported | launched | failed => simp
  | signalled => simp [Registry.transition]

/-- The launch of a runner is under way, and the requests under it have not changed. -/
structure Launches (t : ControlThread) (p : Launching) (rest : List Waiting) (n : Nat) : Prop where
  suffix : (.launching p :: rest) <:+ t.waiting
  serial : (t.registry.slot p.slot).serial = n

theorem Launches.state? {p : Launching} {rest : List Waiting} (launch : Launches t p rest n)
    (h : t.Sound d live grouped) : t.registry.state? n = some .starting := by
  obtain ⟨hi, _, starting⟩ := h.launching (launch.suffix.subset List.mem_cons_self)
  rw [← launch.serial, h.registry.layout.state?_slot hi, starting]

theorem Effect.launches {p : Launching} {rest : List Waiting} (e : Effect groupOf t m t')
    (h : t.Sound d live grouped) (launch : Launches t p rest n) :
    Launches t' p rest n ∨ t.waiting = .launching p :: rest ∧ (∃ answer, m = .launched answer) ∧
      t'.registry.state? n ≠ some .starting := by
  obtain ⟨hi, hg, starting⟩ := h.launching (launch.suffix.subset List.mem_cons_self)
  rcases e.suffix launch.suffix with own | ⟨top, ⟨children, rfl, result⟩ | ⟨error, rfl, result⟩⟩
  · have serial := e.serial_eq h hi (by simp [starting])
    exact Or.inl ⟨own, serial.trans launch.serial⟩
  · refine Or.inr ⟨top, ⟨_, rfl⟩, ?_⟩
    rw [result, h.registry.layout.state?_insertGroup hi hg, if_pos launch.serial.symm]
    simp
  · refine Or.inr ⟨top, ⟨_, rfl⟩, ?_⟩
    rw [result, h.registry.layout.state?_release hi hg, if_pos launch.serial.symm]
    simp

theorem Reaches.launches {p : Launching} {rest : List Waiting} (h : Reaches u v)
    (sound : u.Sound d live grouped) (launch : Launches u p rest n)
    (starting : v.registry.state? n = some .starting) : Launches v p rest n := by
  have lt : n < u.registry.allocations := by
    obtain ⟨hi, _, _⟩ := sound.launching (launch.suffix.subset List.mem_cons_self)
    exact launch.serial ▸ sound.registry.layout.serial_lt _ hi
  induction h with
  | refl => exact launch
  | @step w reaches groupOf m ih =>
    obtain ⟨_, _, sound'⟩ := reaches.sound sound
    have e := effect_step groupOf w m
    have lt' := Nat.lt_of_lt_of_le lt (reaches.allocations_le sound)
    have before : w.registry.state? n = some .starting := by
      by_contra other
      exact (e.passage sound' n).ne_starting lt' other starting
    rcases e.launches sound' (ih before) with still | ⟨_, _, ended⟩
    · exact still
    · exact absurd starting ended

theorem Launches.answered {p : Launching} {rest : List Waiting} (launch : Launches u p rest n)
    (sound : u.Sound d live grouped) (h : Reaches u v)
    (starting : v.registry.state? n = some .starting)
    (ended : (v.step groupOf m).1.registry.state? n ≠ some .starting) :
    v.waiting = .launching p :: rest ∧ ∃ answer, m = .launched answer := by
  obtain ⟨_, _, sound'⟩ := h.sound sound
  have e := effect_step groupOf v m
  rcases e.launches sound' (h.launches sound launch starting) with still | ⟨top, answered, _⟩
  · obtain ⟨_, _, sound''⟩ := e.sound sound'
    exact absurd (still.state? sound'') ended
  · exact ⟨top, answered⟩

theorem launches_of_start {manifest : Manifest} {desc : LaunchDesc}
    (h : t.Sound d live grouped)
    (begun : t.step groupOf (.request (.start manifest)) = (u, .launching desc)) :
    ∃ p, u.waiting = .launching p :: t.waiting ∧
      Launches u p t.waiting t.registry.allocations := by
  obtain ⟨left, _, _, allocations, _⟩ := h.registry.layout.reclaim h.registry.unended
  have starts : t.Starts manifest (t.step groupOf (.request (.start manifest))) :=
    starts_step manifest
  rw [begun] at starts
  cases starts with
  | launches _ a id =>
    refine ⟨_, rfl, List.suffix_refl _, ?_⟩
    rw [registry_update, left.slot_allocated a]
    exact allocations

/-- How a runner may live, seen from a thread on. -/
structure Lifecycle (t : ControlThread) (n : Nat) : Prop where
  /-- Each move takes it along the graph of its states. It is Terminated only by a report on its
  own process, and freed only when Terminated or by the failure of its launch. -/
  passage : ∀ groupOf m,
    Passage groupOf t n m (t.registry.state? n) ((t.step groupOf m).1.registry.state? n)
  terminating : t.registry.state? n = some .terminating → ∀ u, Reaches t u →
    u.registry.state? n ≠ some .running ∧ u.registry.state? n ≠ some .stopped
  freed : n < t.registry.allocations → t.registry.state? n = none → ∀ u, Reaches t u →
    u.registry.state? n = none
  /-- It leaves Starting only when the launch that its start asked for is answered: the requests
  that wait are then those that waited when the launch began. -/
  launch : n = t.registry.allocations → ∀ groupOf manifest u desc,
    t.step groupOf (.request (.start manifest)) = (u, .launching desc) → ∀ v, Reaches u v →
    v.registry.state? n = some .starting → ∀ groupOf m,
    (v.step groupOf m).1.registry.state? n ≠ some .starting →
    v.waiting = u.waiting ∧ ∃ answer, m = .launched answer

/-- Every runner of every reachable state lives like that, however deep requests are nested in the
launcher's calls. -/
theorem lifecycle_of_reaches {capacity buckets : UInt64} {maxRunId : UInt32} {home : String}
    {r : Registry} (created : Registry.create capacity maxRunId buckets = .ok r)
    (h : Reaches (ofSupervisor ⟨home, r⟩) t) (n : Nat) : t.Lifecycle n := by
  obtain ⟨d, live, grouped, sound, _⟩ := sound_of_create created h
  refine ⟨fun groupOf m => (effect_step groupOf t m).passage sound n, ?_, ?_, ?_⟩
  · intro dying u reaches
    have lt : n < t.registry.allocations := by
      obtain ⟨s, hs, _⟩ := Option.map_eq_some_iff.mp dying
      exact sound.registry.layout.lt_allocations hs
    have leaving : Leaving (t.registry.state? n) := by
      intro s hs
      rw [dying] at hs
      exact Option.some.inj hs ▸ rfl
    have left := reaches.keeps (fun lt p => p.leaving lt) sound lt leaving
    exact ⟨fun he => Bool.false_ne_true (left _ he), fun he => Bool.false_ne_true (left _ he)⟩
  · intro lt gone u reaches
    exact reaches.keeps (Q := fun o => o = none) (fun lt p ho => (ho ▸ p).of_none lt) sound lt gone
  · intro new groupOf manifest u desc begun v reaches starting groupOf' m ended
    obtain ⟨p, waits, launch⟩ := launches_of_start sound begun
    obtain ⟨_, _, sound'⟩ := (effect_step groupOf t (.request (.start manifest))).sound sound
    rw [begun] at sound'
    rw [waits]
    exact (new ▸ launch).answered sound' reaches starting ended

theorem lifecycle_nested : (List.range 11).map (fun count => (nestedTo count).registry.state? 1) =
    [none, none, some .starting, some .starting, some .starting, some .running, some .running,
      some .running, some .terminated, none, none] ∧ (nestedTo 2).Lifecycle 1 :=
  ⟨by decide +kernel, lifecycle_of_reaches
    (show Registry.create 3 4 2 = .ok (.empty 3 4 2) from rfl) (reaches_run _ _ _) 1⟩

end ControlThread
end AppSupervisor
