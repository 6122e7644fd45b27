import AppSupervisor.Proofs.ControlThread.Lifecycle

namespace AppSupervisor

/-- A run: the moves one after the other, and the group of each process as the system knows it at
that moment. -/
structure Course where
  start : ControlThread
  move : Nat → Move
  groupOf : Nat → Pid → Option Pid

namespace Course

def thread (c : Course) : Nat → ControlThread
  | 0 => c.start
  | k + 1 => ((c.thread k).step (c.groupOf k) (c.move k)).1

def outcome (c : Course) (k : Nat) : Outcome := ((c.thread k).step (c.groupOf k) (c.move k)).2

abbrev registry (c : Course) (k : Nat) : Registry := (c.thread k).registry

def ofMoves (start : ControlThread) (moves : List Move) : Course where
  start
  move k := moves.getD k (.request .list)
  groupOf _ _ := none

theorem move_ofMoves {start : ControlThread} {moves : List Move} {k : Nat}
    (past : moves.length ≤ k) : (ofMoves start moves).move k = .request .list := by
  show moves.getD k _ = _
  rw [List.getD_eq_getElem?_getD, List.getElem?_eq_none past, Option.getD_none]

/-- A start allocates a runner, and its launch is called for. -/
structure Allots (c : Course) (k : Nat) (manifest : Manifest) (p : Launching) : Prop where
  starts : c.move k = .request (.start manifest)
  waits : (c.thread (k + 1)).waiting = .launching p :: (c.thread k).waiting
  runId : p.runId = ⟨(c.registry (k + 1)).lastRunId⟩
  serial : ((c.registry (k + 1)).slot p.slot).serial = (c.registry k).allocations
  born : (c.registry (k + 1)).runner? (c.registry k).allocations =
    some ⟨p.runId, ⟨0⟩, ⟨0⟩, .starting, some manifest, (c.registry k).allocations⟩

def Launched (c : Course) (n k : Nat) (children : Children) : Prop :=
  c.move k = .launched (.ok children) ∧ ∃ p rest, (c.thread k).waiting = .launching p :: rest ∧
    ((c.registry k).slot p.slot).serial = n

def Frees (c : Course) (n k : Nat) : Prop :=
  (c.registry k).state? n = some .terminated ∧ (c.registry (k + 1)).state? n = none

end Course

/-- What does not change in the life of a runner: its run id, its manifest, and from its launch on
its processes. -/
structure Runner.Remains (s s' : Runner) : Prop where
  serial : s'.serial = s.serial
  runId : s'.runId = s.runId
  manifest : s'.manifest = s.manifest
  launched : s.state ≠ .starting →
    s'.state ≠ .starting ∧ s'.leader = s.leader ∧ s'.app = s.app

theorem Runner.Remains.refl (s : Runner) : s.Remains s :=
  ⟨rfl, rfl, rfl, fun h => ⟨h, rfl, rfl⟩⟩

theorem Runner.Remains.trans {s s' s'' : Runner} (h : s.Remains s') (h' : s'.Remains s'') :
    s.Remains s'' where
  serial := h'.serial.trans h.serial
  runId := h'.runId.trans h.runId
  manifest := h'.manifest.trans h.manifest
  launched launched := by
    obtain ⟨still, leader, app⟩ := h.launched launched
    obtain ⟨still', leader', app'⟩ := h'.launched still
    exact ⟨still', leader'.trans leader, app'.trans app⟩

namespace ControlThread

/-- What a move may do to a runner as a whole; `none` stands for a runner that is not live. -/
inductive Fate (t : ControlThread) (n : Nat) : Move → Option Runner → Option Runner → Prop
  | absent (m : Move) : Fate t n m none none
  | born {manifest : Manifest} {id : RunId} (new : n = t.registry.allocations) :
      Fate t n (.request (.start manifest)) none
        (some ⟨id, ⟨0⟩, ⟨0⟩, .starting, some manifest, n⟩)
  | kept {m : Move} {s : Runner} {state : RunState}
      (same : state = .starting ↔ s.state = .starting) :
      Fate t n m (some s) (some { s with state })
  | launched {children : Children} {p : Launching} {rest : List Waiting} {s : Runner}
      (top : t.waiting = .launching p :: rest) (slot : (t.registry.slot p.slot).serial = n)
      (starting : s.state = .starting) :
      Fate t n (.launched (.ok children)) (some s)
        (some { s with leader := children.leader, app := children.app, state := .running })
  | freed (m : Move) (s : Runner) : Fate t n m (some s) none

variable {d : Measures} {groupOf : Pid → Option Pid} {t t' : ControlThread} {m : Move}
  {live grouped : List Nat} {i n : Nat} {o : Option Runner} {s s' : Runner}

theorem fate_same (o : Option Runner) : Fate t n m o o := by
  cases o with
  | none => exact .absent m
  | some s => exact .kept Iff.rfl

theorem fate_slot (h : t.registry.Layout d live grouped) (hi : i ∈ live)
    (own : n = (t.registry.slot i).serial → Fate t n m (some (t.registry.slot i)) o) :
    Fate t n m (t.registry.runner? n)
      (if n = (t.registry.slot i).serial then o else t.registry.runner? n) := by
  split
  next he =>
    have fate := own he
    rwa [← h.runner?_slot hi, ← he] at fate
  next => exact fate_same _

theorem fate_reclaim (o : Option Runner) : Fate t n m o (o.filter (·.state ≠ .terminated)) := by
  cases o with
  | none => exact .absent m
  | some s =>
    by_cases ended : s.state = .terminated
    · rw [Option.filter_some_neg (by simpa using ended)]
      exact .freed m s
    · rw [Option.filter_some_pos (by simpa using ended)]
      exact .kept Iff.rfl

theorem Effect.fate (e : Effect groupOf t m t') (h : t.Sound d live grouped) (n : Nat) :
    Fate t n m (t.registry.runner? n) (t'.registry.runner? n) := by
  have registry := h.registry
  have layout := registry.layout
  cases e with
  | idle | asked | unsignalled | continued => exact fate_same _
  | reclaimed =>
    rw [registry_update, layout.runner?_reclaim registry.unended]
    exact fate_reclaim _
  | @allocated manifest r _ a id =>
    obtain ⟨left, _, _, allocations, _⟩ := layout.reclaim registry.unended
    rw [registry_update, left.runner?_allocate a, allocations]
    split
    next new =>
      have absent : t.registry.runner? n = none := by
        have := new ▸ layout.state?_allocations
        simpa [Registry.state?] using this
      rw [absent, new]
      exact .born rfl
    next =>
      rw [layout.runner?_reclaim registry.unended]
      exact fate_reclaim _
  | @removed _ i found ended =>
    obtain ⟨hi, _⟩ := layout.slotOfRunId?_eq_some.mp found
    have hg : i ∉ grouped := registry.not_mem_grouped (by simp [ended, RunState.hasProcess])
    rw [registry_update, layout.runner?_release hi hg]
    exact fate_slot layout hi fun _ => .freed _ _
  | @ended _ _ i found terminal =>
    obtain ⟨hg, _⟩ := layout.mem_of_slotOfPid? found
    have hi := layout.grouped_live i hg
    rw [registry_update, (layout.eraseGroup i).runner?_updateState hi]
    refine fate_slot layout hi fun _ => .kept ?_
    simp [RunState.ne_starting (registry.hasProcess hg)]
  | @reported _ _ i _ found running =>
    obtain ⟨hg, _⟩ := layout.mem_of_slotOfPid? found
    have process := registry.hasProcess hg
    have still := RunState.hasProcess_afterReport process running
    have hi := layout.grouped_live i hg
    rw [registry_update, layout.runner?_updateState hi]
    refine fate_slot layout hi fun _ => .kept ?_
    simp [RunState.ne_starting process, RunState.ne_starting still]
  | launched top =>
    obtain ⟨hi, hg, starting⟩ := h.launching (top ▸ List.mem_cons_self)
    rw [registry_update, layout.runner?_insertGroup hi hg]
    exact fate_slot layout hi fun he => .launched top he.symm starting
  | failed top =>
    obtain ⟨hi, hg, _⟩ := h.launching (top ▸ List.mem_cons_self)
    rw [registry_update, layout.runner?_release hi hg]
    exact fate_slot layout hi fun _ => .freed _ _
  | @signalled p _ _ top _ =>
    have valid := h.signals p (top ▸ List.mem_cons_self)
    rw [registry_update, Registry.transition]
    by_cases hi : p.slot ∈ live
    · rw [layout.runner?_updateState hi]
      refine fate_slot layout hi fun _ => .kept ?_
      split
      next before =>
        simp [before, valid.next.ne_starting, RunState.ne_starting valid.before]
      next => rfl
    · rw [layout.runner?_updateState_of_not_mem hi]
      exact fate_same _

theorem Fate.remains (f : Fate t n m (some s) (some s')) : s.Remains s' := by
  cases f with
  | kept same =>
    exact ⟨rfl, rfl, rfl, fun launched => ⟨fun he => launched (same.mp he), rfl, rfl⟩⟩
  | launched _ _ starting => exact ⟨rfl, rfl, rfl, fun launched => absurd starting launched⟩

theorem Fate.eq_allocations (f : Fate t n m none (some s)) : n = t.registry.allocations := by
  cases f with
  | born new => exact new

theorem Passage.eq_terminated {state : RunState} (p : Passage groupOf t n m (some state) none)
    (launched : state ≠ .starting) : state = .terminated := by
  cases p with
  | reclaimed | removed => rfl
  | failed => exact absurd rfl launched

end ControlThread

namespace Course

open ControlThread

def Sound (d : Measures) (c : Course) : Prop :=
  ∀ k, ∃ live grouped, (c.thread k).Sound d live grouped

variable {d : Measures} {c : Course} {i j k n : Nat} {s s' : Runner} {children : Children}

theorem reaches_of_le (c : Course) (hij : i ≤ j) : Reaches (c.thread i) (c.thread j) := by
  induction j, hij using Nat.le_induction with
  | base => exact .refl _
  | succ j _ ih => exact ih.step (c.groupOf j) (c.move j)

theorem sound_of_create {capacity buckets : UInt64} {maxRunId : UInt32} {home : String}
    {r : Registry} (created : Registry.create capacity maxRunId buckets = .ok r)
    (begins : c.start = .ofSupervisor ⟨home, r⟩) :
    ∃ d : Measures, c.Sound d ∧ c.registry 0 = .empty d.capacity d.maxRunId d.buckets ∧
      d.capacity = capacity.toNat ∧ d.maxRunId = maxRunId := by
  obtain ⟨d, hcapacity, hmax, hbuckets, rfl⟩ := Registry.create_eq_ok created
  rw [← hcapacity, ← hmax, ← hbuckets] at begins
  have first : c.thread 0 =
      .ofSupervisor ⟨home, .empty d.capacity d.maxRunId d.buckets⟩ := begins
  refine ⟨d, fun k => ?_, ?_, hcapacity, hmax⟩
  · have reaches := c.reaches_of_le (Nat.zero_le k)
    rw [first] at reaches
    exact reaches.sound (ControlThread.sound_empty d home)
  · rw [registry, first]
    rfl

theorem runner?_empty (d : Measures) (n : Nat) :
    (Registry.empty d.capacity d.maxRunId d.buckets).runner? n = none := by
  have layout := Registry.layout_empty d
  cases hs : (Registry.empty d.capacity d.maxRunId d.buckets).runner? n with
  | none => rfl
  | some s => exact absurd (layout.lt_allocations hs) (Nat.not_lt_zero n)

section

variable (h : c.Sound d)

include h

theorem fate (k n : Nat) : (c.thread k).Fate n (c.move k) ((c.registry k).runner? n)
    ((c.registry (k + 1)).runner? n) := by
  obtain ⟨_, _, sound⟩ := h k
  exact (effect_step (c.groupOf k) (c.thread k) (c.move k)).fate sound n

theorem passage (k n : Nat) : Passage (c.groupOf k) (c.thread k) n (c.move k)
    ((c.registry k).state? n) ((c.registry (k + 1)).state? n) := by
  obtain ⟨_, _, sound⟩ := h k
  exact (effect_step (c.groupOf k) (c.thread k) (c.move k)).passage sound n

theorem allocations_le (hij : i ≤ j) :
    (c.registry i).allocations ≤ (c.registry j).allocations := by
  obtain ⟨_, _, sound⟩ := h i
  exact (c.reaches_of_le hij).allocations_le sound

theorem allots_of_launching {desc : LaunchDesc} (launches : c.outcome k = .launching desc) :
    ∃ manifest p, c.Allots k manifest p := by
  obtain ⟨live, grouped, sound⟩ := h k
  obtain ⟨left, _, _, allocations, _⟩ := sound.registry.layout.reclaim sound.registry.unended
  obtain ⟨manifest, made⟩ := starts_of_launching launches
  have starts : (c.thread k).Starts manifest ((c.thread k).step (c.groupOf k) (c.move k)) := by
    rw [made]
    exact starts_step manifest
  generalize hresult : (c.thread k).step (c.groupOf k) (c.move k) = result at starts
  have after : c.thread (k + 1) = result.1 := by rw [thread, hresult]
  rw [outcome, hresult] at launches
  cases starts with
  | invalid | full => cases launches
  | @launches _ r p _ a id =>
    have next : c.registry (k + 1) = r := by rw [registry, after, registry_update]
    have self := left.slot_allocated a
    have runId : p.runId = ⟨r.lastRunId⟩ := by rw [id, self]
    have born := left.runner?_allocate a (n := (c.registry k).allocations)
    rw [if_pos allocations.symm, allocations, ← runId] at born
    refine ⟨manifest, p, made, ?_, next ▸ runId, ?_, next ▸ born⟩
    · rw [after, waiting_update]
    · rw [next, self]
      exact allocations

theorem remains (allocated : n < (c.registry i).allocations) (hik : i ≤ k)
    (later : (c.registry k).runner? n = some s') :
    ∃ s, (c.registry i).runner? n = some s ∧ s.Remains s' := by
  induction k, hik using Nat.le_induction generalizing s' with
  | base => exact ⟨s', later, .refl s'⟩
  | succ k hik ih =>
    have bound := c.allocations_le h hik
    have fate := c.fate h k n
    rw [later] at fate
    cases hs : (c.registry k).runner? n with
    | none =>
      rw [hs] at fate
      have new : n = (c.registry k).allocations := fate.eq_allocations
      omega
    | some s =>
      rw [hs] at fate
      obtain ⟨first, found, remains⟩ := ih hs
      exact ⟨first, found, remains.trans fate.remains⟩

/-- Once launched a runner remains what it is until it is given back, and it is Terminated then. -/
theorem remains_or_freed (found : (c.registry i).runner? n = some s)
    (launched : s.state ≠ .starting) (hik : i ≤ k) :
    (∃ s', (c.registry k).runner? n = some s' ∧ s.Remains s') ∨
      ∃ l, i ≤ l ∧ l < k ∧ c.Frees n l := by
  induction k, hik using Nat.le_induction with
  | base => exact Or.inl ⟨s, found, .refl s⟩
  | succ k hik ih =>
    rcases ih with ⟨s', hs, remains⟩ | ⟨l, hil, hlk, frees⟩
    · have fate := c.fate h k n
      rw [hs] at fate
      cases later : (c.registry (k + 1)).runner? n with
      | some s'' =>
        rw [later] at fate
        exact Or.inl ⟨s'', rfl, remains.trans fate.remains⟩
      | none =>
        have state : (c.registry k).state? n = some s'.state := by
          rw [Registry.state?, hs, Option.map_some]
        have gone : (c.registry (k + 1)).state? n = none := by
          rw [Registry.state?, later, Option.map_none]
        have passage := c.passage h k n
        have started := (remains.launched launched).1
        rw [state, gone] at passage
        rw [passage.eq_terminated started] at state
        exact Or.inr ⟨k, hik, by omega, state, gone⟩
    · exact Or.inr ⟨l, hil, by omega, frees⟩

theorem launched_before (none : (c.registry 0).runner? n = none)
    (found : (c.registry k).runner? n = some s) (launched : s.state ≠ .starting) :
    ∃ j < k, ∃ children, c.Launched n j children ∧ s.leader = children.leader ∧
      s.app = children.app := by
  induction k generalizing s with
  | zero => simp [none] at found
  | succ k ih =>
    have fate := c.fate h k n
    rw [found] at fate
    generalize before : (c.registry k).runner? n = o at fate
    generalize made : c.move k = m at fate
    cases fate with
    | born => exact absurd rfl launched
    | kept same =>
      obtain ⟨j, hj, children, answered, leader, app⟩ := ih before fun he => launched (same.mpr he)
      exact ⟨j, by omega, children, answered, leader, app⟩
    | launched top slot starting =>
      exact ⟨k, by omega, _, ⟨made, _, _, top, slot⟩, rfl, rfl⟩

theorem Launched.runner? (answered : c.Launched n k children) :
    ∃ s, (c.registry k).runner? n = some s ∧ s.state = .starting ∧
      (c.registry (k + 1)).runner? n =
        some { s with leader := children.leader, app := children.app, state := .running } := by
  obtain ⟨made, p, rest, top, rfl⟩ := answered
  obtain ⟨live, grouped, sound⟩ := h k
  have layout := sound.registry.layout
  obtain ⟨hi, hg, starting⟩ := sound.launching (top ▸ List.mem_cons_self)
  refine ⟨_, layout.runner?_slot hi, starting, ?_⟩
  have result : c.registry (k + 1) = (c.registry k).insertGroup p.slot children := by
    rw [registry, thread, made, step_launched top, registry_update]
  rw [result, layout.runner?_insertGroup hi hg, if_pos rfl]

theorem Launched.leader_eq (answered : c.Launched n j children)
    (found : (c.registry k).runner? n = some s) (launched : s.state ≠ .starting) :
    s.leader = children.leader ∧ s.app = children.app := by
  obtain ⟨before, live, starting, after⟩ := answered.runner? h
  rcases Nat.lt_or_ge j k with lt | ge
  · obtain ⟨_, _, sound⟩ := h (j + 1)
    obtain ⟨first, hfirst, remains⟩ := c.remains h (sound.registry.layout.lt_allocations after) lt found
    cases after.symm.trans hfirst
    exact (remains.launched (by simp)).2
  · obtain ⟨_, _, sound⟩ := h k
    obtain ⟨first, hfirst, remains⟩ :=
      c.remains h (sound.registry.layout.lt_allocations found) ge live
    cases found.symm.trans hfirst
    exact absurd starting (remains.launched launched).1

end

end Course
end AppSupervisor
