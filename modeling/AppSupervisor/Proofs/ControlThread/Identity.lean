import AppSupervisor.Proofs.ControlThread.Course

namespace AppSupervisor

def Manifest.publicId? (v : Json) : Option String :=
  (public? v).bind fun ms => (ms.lookup "id").bind Json.string?

theorem Manifest.publicId?_of_ofValue {v : Json} {m : Manifest} (h : ofValue v = .ok m) :
    publicId? v = some m.appId := by
  unfold ofValue at h
  split at h
  next appId found =>
    cases h
    exact found
  next => cases h

/-- A runner is what its start made of it: it has the processes that the launcher answered, and is
reported under the identifier of its manifest. -/
structure Runner.StartedAs (s : Runner) (m : Manifest) (children : Children) : Prop where
  leader : s.leader = children.leader
  app : s.app = children.app
  manifest : s.manifest = some m
  id : s.record.id = m.appId
  publicId : ∀ v, Manifest.ofValue v = .ok m → Manifest.publicId? v = some s.record.id

namespace ControlThread

variable {groupOf : Pid → Option Pid} {t t' : ControlThread} {m : Move}

theorem Effect.suffix_or_pushed {p : Launching} {rest : List Waiting} (e : Effect groupOf t m t')
    (waits : (.launching p :: rest) <:+ t'.waiting) :
    (.launching p :: rest) <:+ t.waiting ∨
      (∃ manifest, m = .request (.start manifest)) ∧ t'.waiting = .launching p :: rest ∧
        rest = t.waiting := by
  cases e with
  | idle | reclaimed | removed | ended | reported => exact Or.inl waits
  | allocated =>
    rcases List.suffix_cons_iff.mp waits with same | before
    · cases same
      exact Or.inr ⟨⟨_, rfl⟩, rfl, rfl⟩
    · exact Or.inl before
  | asked =>
    rcases List.suffix_cons_iff.mp waits with same | before
    · cases same
    · exact Or.inl before
  | launched top | failed top | unsignalled top | continued top =>
    exact Or.inl (waits.trans (top ▸ List.suffix_cons _ _))
  | signalled top left =>
    rcases left with rfl | rfl
    · exact Or.inl (waits.trans (top ▸ List.suffix_cons _ _))
    · rcases List.suffix_cons_iff.mp waits with same | before
      · cases same
      · exact Or.inl (before.trans (top ▸ List.suffix_cons _ _))

theorem launched_of_started {id : RunId}
    (returned : (t.step groupOf m).2 = .replied (.ok (.started id))) :
    ∃ children p rest, m = .launched (.ok children) ∧ t.waiting = .launching p :: rest ∧
      p.runId = id := by
  have uncontrolled : ∀ {q : Request} {id' : RunId} {signal : Signal} {after : RunState},
      q.Control id' signal after →
        (t.step groupOf (.request q)).2 ≠ .replied (.ok (.started id)) := by
    intro q id' signal after control
    have begins : t.Begins id' signal after (t.step groupOf (.request q)) := begins_step control
    generalize t.step groupOf (.request q) = result at begins ⊢
    cases begins <;> simp
  cases m with
  | request q =>
    cases q with
    | start manifest =>
      have starts : t.Starts manifest (t.step groupOf (.request (.start manifest))) :=
        starts_step manifest
      generalize t.step groupOf (.request (.start manifest)) = result at starts returned
      cases starts <;> cases returned
    | stop id' => exact absurd returned (uncontrolled (.stop id'))
    | resume id' => exact absurd returned (uncontrolled (.resume id'))
    | terminate id' => exact absurd returned (uncontrolled (.terminate id'))
    | remove id' =>
      simp only [step, Supervisor.request] at returned
      cases hr : (t.supervisor.remove id').2 <;> simp [hr, Except.map] at returned
    | state id' =>
      simp only [step, Supervisor.request] at returned
      cases hr : t.supervisor.state id' <;> simp [hr, Except.map] at returned
    | list => cases returned
    | collect => cases returned
  | notify => cases returned
  | launched answer =>
    cases hw : t.waiting with
    | nil => simp [step, hw] at returned
    | cons top rest =>
      cases top with
      | signalling | continuing => simp [step, hw] at returned
      | launching p =>
        cases answer with
        | error e =>
          rw [step_unlaunched hw] at returned
          cases returned
        | ok children =>
          rw [step_launched hw] at returned
          cases returned
          exact ⟨children, p, rest, rfl, rfl, rfl⟩
  | signalled answer =>
    simp only [step] at returned
    split at returned
    next => split at returned <;> cases returned
    next => cases returned
    next => cases returned

end ControlThread

namespace Course

/-- Move `j` comes when the call that move `i` made is the last one that waits: the requests that
waited during that call have waited ever since, and no others do now. -/
def Answers (c : Course) (i j : Nat) : Prop :=
  i < j ∧ (∀ l, i < l → l ≤ j → (c.thread (i + 1)).waiting <:+ (c.thread l).waiting) ∧
    (c.thread j).waiting = (c.thread (i + 1)).waiting

open ControlThread

variable {d : Measures} {c : Course} {i j k n : Nat} {p : Launching} {rest : List Waiting}
  {manifest : Manifest} {children : Children} {s : Runner}

theorem launches_of_answers (h : c.Sound d) (launch : Launches (c.thread (i + 1)) p rest n)
    (waits : (c.thread (i + 1)).waiting = .launching p :: rest) (answers : c.Answers i j) :
    Launches (c.thread j) p rest n := by
  obtain ⟨hij, under, _⟩ := answers
  rw [waits] at under
  have all : ∀ l, i + 1 ≤ l → l ≤ j → Launches (c.thread l) p rest n := by
    intro l hil
    induction l, hil using Nat.le_induction with
    | base => exact fun _ => launch
    | succ l hil ih =>
      intro hlj
      obtain ⟨_, _, sound⟩ := h l
      have e := effect_step (c.groupOf l) (c.thread l) (c.move l)
      rcases e.launches sound (ih (by omega)) with still | ⟨top, ⟨answer, answered⟩, _⟩
      · exact still
      · -- The launch would have been answered before, so it would not wait any more.
        have left : (c.thread (l + 1)).waiting = rest := by
          cases answer with
          | ok children => rw [thread, answered, step_launched top, waiting_update]
          | error e => rw [thread, answered, step_unlaunched top, waiting_update]
        have suffix := (under (l + 1) (by omega) hlj).length_le
        rw [left, List.length_cons] at suffix
        omega
  exact all j hij (Nat.le_refl j)

theorem runner?_of_answers (h : c.Sound d) (allots : c.Allots i manifest p)
    (answers : c.Answers i j) (answered : c.move j = .launched (.ok children)) :
    (c.registry (j + 1)).runner? (c.registry i).allocations =
      some ⟨p.runId, children.leader, children.app, .running, some manifest,
        (c.registry i).allocations⟩ := by
  have launch : Launches (c.thread (i + 1)) p (c.thread i).waiting (c.registry i).allocations :=
    ⟨allots.waits ▸ List.suffix_refl _, allots.serial⟩
  have last := c.launches_of_answers h launch allots.waits answers
  have top : (c.thread j).waiting = .launching p :: (c.thread i).waiting :=
    answers.2.2.trans allots.waits
  obtain ⟨s, before, _, later⟩ := Launched.runner? h ⟨answered, p, _, top, last.serial⟩
  obtain ⟨_, _, sound⟩ := h (i + 1)
  have allocated := sound.registry.layout.lt_allocations allots.born
  obtain ⟨first, hfirst, remains⟩ := c.remains h allocated answers.1 before
  cases allots.born.symm.trans hfirst
  rw [later, Option.some.injEq, Runner.mk.injEq]
  exact ⟨remains.runId, rfl, rfl, rfl, remains.manifest, remains.serial⟩

theorem identity_of_answers (h : c.Sound d) (allots : c.Allots i manifest p)
    (answers : c.Answers i j) (answered : c.move j = .launched (.ok children)) (hjk : j < k) :
    (∃ s, (c.registry k).lookupRunId p.runId = some s ∧ s.serial = (c.registry i).allocations ∧
      s.StartedAs manifest children) ∨
    ∃ l, j < l ∧ l < k ∧ c.Frees (c.registry i).allocations l := by
  have first := c.runner?_of_answers h allots answers answered
  rcases c.remains_or_freed h first (by simp) hjk with ⟨s, found, remains⟩ | ⟨l, hjl, hlk, frees⟩
  · obtain ⟨live, grouped, sound⟩ := h k
    obtain ⟨slot, hi, rfl, _⟩ := sound.registry.layout.runner?_eq_some.mp found
    obtain ⟨_, leader, app⟩ := remains.launched (by simp)
    have named := sound.registry.layout.lookupRunId_slot hi
    rw [remains.runId] at named
    have id : ((c.registry k).slot slot).record.id = manifest.appId := by
      simp [Runner.record, Runner.appId, remains.manifest]
    refine Or.inl ⟨_, named, remains.serial, leader, app, remains.manifest, id, fun v hv => ?_⟩
    rw [id]
    exact Manifest.publicId?_of_ofValue hv
  · exact Or.inr ⟨l, hjl, hlk, frees⟩

theorem launching_of_pushed (made : c.move k = .request (.start manifest))
    (pushed : (c.thread (k + 1)).waiting = .launching p :: (c.thread k).waiting) :
    ∃ desc, c.outcome k = .launching desc := by
  have starts : (c.thread k).Starts manifest ((c.thread k).step (c.groupOf k) (c.move k)) := by
    rw [made]
    exact starts_step manifest
  have after : (c.thread (k + 1)) = ((c.thread k).step (c.groupOf k) (c.move k)).1 := rfl
  rw [after] at pushed
  rw [outcome]
  generalize (c.thread k).step (c.groupOf k) (c.move k) = result at starts pushed
  cases starts with
  | invalid | full => simp at pushed
  | launches => exact ⟨_, rfl⟩

theorem allots_of_waiting (h : c.Sound d) (begins : (c.thread 0).waiting = [])
    (waits : (.launching p :: rest) <:+ (c.thread k).waiting) :
    ∃ i manifest, i < k ∧ c.Allots i manifest p ∧ (c.thread i).waiting = rest ∧
      (∃ desc, c.outcome i = .launching desc) ∧
        ∀ l, i < l → l ≤ k → (.launching p :: rest) <:+ (c.thread l).waiting := by
  induction k with
  | zero => simp [begins] at waits
  | succ k ih =>
    have e := effect_step (c.groupOf k) (c.thread k) (c.move k)
    rcases e.suffix_or_pushed waits with before | ⟨⟨manifest, made⟩, pushed, rfl⟩
    · obtain ⟨i, manifest, hik, allots, under, launches, all⟩ := ih before
      refine ⟨i, manifest, by omega, allots, under, launches, fun l hil hlk => ?_⟩
      rcases Nat.lt_or_ge k l with last | earlier
      · obtain rfl : l = k + 1 := by omega
        exact waits
      · exact all l hil earlier
    · obtain ⟨desc, launches⟩ := c.launching_of_pushed made pushed
      obtain ⟨manifest', p', allots⟩ := c.allots_of_launching h launches
      cases allots.waits.symm.trans pushed
      refine ⟨k, manifest', by omega, allots, rfl, ⟨desc, launches⟩, fun l hkl hlk => ?_⟩
      obtain rfl : l = k + 1 := by omega
      exact waits

/-- Whenever a start returns a run id, that id means its runner until it is freed: it is found with
the processes that the launcher answered to this very start, and reported under the identifier of
this very manifest. Nothing that is done meanwhile, and no nesting of starts, makes a
difference. -/
theorem identity_of_course {capacity buckets : UInt64} {maxRunId : UInt32} {home : String}
    {r : Registry} {id : RunId}
    (created : Registry.create capacity maxRunId buckets = .ok r)
    (begins : c.start = .ofSupervisor ⟨home, r⟩)
    (returned : c.outcome j = .replied (.ok (.started id))) :
    ∃ i manifest children, c.move i = .request (.start manifest) ∧
      (∃ desc, c.outcome i = .launching desc) ∧ c.Answers i j ∧
      c.move j = .launched (.ok children) ∧ ∀ k, j < k →
        (∃ s, (c.registry k).lookupRunId id = some s ∧ s.serial = (c.registry i).allocations ∧
          s.StartedAs manifest children) ∨
        ∃ l, j < l ∧ l < k ∧ c.Frees (c.registry i).allocations l := by
  obtain ⟨d, h, _⟩ := sound_of_create created begins
  obtain ⟨children, p, rest, answered, top, rfl⟩ := launched_of_started returned
  have empty : (c.thread 0).waiting = [] := by rw [thread, begins, ofSupervisor]
  have last : (.launching p :: rest) <:+ (c.thread j).waiting := top ▸ List.suffix_refl _
  obtain ⟨i, manifest, hij, allots, under, launches, all⟩ := c.allots_of_waiting h empty last
  have answers : c.Answers i j := by
    rw [Answers, allots.waits, under]
    exact ⟨hij, all, top⟩
  exact ⟨i, manifest, children, allots.starts, launches, answers, answered, fun k hjk =>
    c.identity_of_answers h allots answers answered hjk⟩

def plain (id : String) : Manifest :=
  ⟨.object [("path", .string "/opt"), ("id", .string id), ("content", .string "main"),
    ("type", .string "native"), ("public", .object [("id", .string id), ("name", .string id),
    ("width", .number (.int 8)), ("height", .number (.int 6))])], id⟩

/-- While one application is launched another one is started and stopped, and after its end a third
one takes its slot but cannot be launched. -/
def crossed : Course := ofMoves (.ofSupervisor ⟨"/home", .empty 2 4 2⟩) [
  .request (.start (plain "notes")), .request (.start (plain "maps")), .launched (.ok ⟨⟨9⟩, ⟨9⟩⟩),
  .request (.stop ⟨2⟩), .signalled (.ok ()), .launched (.ok ⟨⟨7⟩, ⟨8⟩⟩), .notify ⟨9⟩ (.exited 0),
  .request (.start (plain "clock")), .launched (.error .outOfMemory)]

theorem identity_crossed :
    ((crossed.registry 9).lookupRunId ⟨1⟩).map (fun s => (s.leader, s.app, s.appId)) =
      some (⟨7⟩, ⟨8⟩, "notes") ∧
    crossed.outcome 5 = .replied (.ok (.started ⟨1⟩)) ∧
    ∃ i manifest children, crossed.move i = .request (.start manifest) ∧
      (∃ desc, crossed.outcome i = .launching desc) ∧ crossed.Answers i 5 ∧
      crossed.move 5 = .launched (.ok children) ∧ ∀ k, 5 < k →
        (∃ s, (crossed.registry k).lookupRunId ⟨1⟩ = some s ∧
          s.serial = (crossed.registry i).allocations ∧ s.StartedAs manifest children) ∨
        ∃ l, 5 < l ∧ l < k ∧ crossed.Frees (crossed.registry i).allocations l := by
  have returned : crossed.outcome 5 = .replied (.ok (.started ⟨1⟩)) := rfl
  exact ⟨by decide +kernel, returned, identity_of_course
    (show Registry.create 2 4 2 = .ok (.empty 2 4 2) from rfl) rfl returned⟩

end Course
end AppSupervisor
