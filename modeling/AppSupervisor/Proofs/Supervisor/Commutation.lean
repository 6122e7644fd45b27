import AppSupervisor.Launcher
import AppSupervisor.Proofs.ControlThread.Soundness
import AppSupervisor.Proofs.Registry.Rewrites

namespace AppSupervisor

def Launcher.traced {σ : Type} (l : Launcher σ) : Launcher (σ × List (Pid × Signal)) where
  launch desc w :=
    let (answer, v) := l.launch desc w.1
    (answer, v, w.2)
  signal leader signal w :=
    let (answer, v) := l.signal leader signal w.1
    (answer, v, w.2 ++ [(leader, signal)])

/-- What may be done to a runner: one of the requests about it, or a status change of its leader. -/
inductive Deed
  | stop
  | resume
  | terminate
  | remove
  | report (groupOf : Pid → Option Pid) (event : ChildEvent)

def Deed.isReport : Deed → Bool
  | report _ _ => true
  | stop | resume | terminate | remove => false

namespace Supervisor

variable {σ : Type}

def serveOne (l : Launcher σ) (s : Supervisor) (q : Request) (w : σ) : Outcome × Supervisor × σ :=
  let (result, s, w) := s.serve l q w
  (.replied result, s, w)

def perform (l : Launcher σ) (s : Supervisor) (x : Runner) (w : σ) :
    Deed → Outcome × Supervisor × σ
  | .stop => s.serveOne l (.stop x.runId) w
  | .resume => s.serveOne l (.resume x.runId) w
  | .terminate => s.serveOne l (.terminate x.runId) w
  | .remove => s.serveOne l (.remove x.runId) w
  | .report groupOf event =>
    let (s, owned) := s.notify groupOf x.leader event
    (.notified owned, s, w)

def performBoth (l : Launcher σ) (s : Supervisor) (x : Runner) (first : Deed) (y : Runner)
    (second : Deed) (w : σ) : (Outcome × Outcome) × Supervisor × σ :=
  let (answer, s, w) := s.perform l x w first
  let (answer', s, w) := s.perform l y w second
  ((answer, answer'), s, w)

end Supervisor

/-- What an operation comes to: its answer, the signals it sends, what it leaves of the runner. -/
structure Consequence where
  answer : Outcome
  signals : List (Pid × Signal)
  left : Option Runner

namespace Runner

def controlled (x : Runner) (answers : Pid → Signal → Except Error Unit) (signal : Signal)
    (after : RunState) : Consequence :=
  if x.state ≠ .running ∧ x.state ≠ .stopped then
    ⟨.replied (.error (.denied x.runId x.state)), [], some x⟩
  else if x.state = after then ⟨.replied (.ok .accepted), [], some x⟩
  else
    match answers x.leader signal with
    | .error e => ⟨.replied (.error e), [(x.leader, signal)], some x⟩
    | .ok () =>
      ⟨.replied (.ok .accepted), (x.leader, signal) ::
        (if x.state = .stopped ∧ signal = .term then [(x.leader, .cont)] else []),
        some { x with state := after }⟩

def consequence (x : Runner) (answers : Pid → Signal → Except Error Unit) : Deed → Consequence
  | .stop => x.controlled answers .stop .stopped
  | .resume => x.controlled answers .cont .running
  | .terminate => x.controlled answers .term .terminating
  | .remove =>
    if x.state = .terminated then ⟨.replied (.ok .accepted), [], none⟩
    else ⟨.replied (.error (.denied x.runId x.state)), [], some x⟩
  | .report _ event =>
    ⟨.notified true, [], some { x with state := Registry.afterEvent event x.state }⟩

variable {x y : Runner} {answers : Pid → Signal → Except Error Unit}

theorem controlled_left {signal : Signal} {after : RunState}
    (h : (x.controlled answers signal after).left = some y) : y.leader = x.leader := by
  unfold controlled at h
  split at h
  next => cases h; rfl
  next =>
    split at h
    next => cases h; rfl
    next => split at h <;> cases h <;> rfl

theorem consequence_left {deed : Deed} (h : (x.consequence answers deed).left = some y) :
    y.leader = x.leader := by
  cases deed with
  | stop | resume | terminate => exact controlled_left h
  | remove =>
    simp only [consequence] at h
    split at h
    next => cases h
    next => cases h; rfl
  | report => cases h; rfl

theorem controlled_signals {signal : Signal} {after : RunState} {call : Pid × Signal}
    (h : call ∈ (x.controlled answers signal after).signals) :
    call.1 = x.leader ∧ x.state.hasProcess := by
  unfold controlled at h
  split at h
  next => cases h
  next relayed =>
    have process : x.state.hasProcess := by
      rw [not_and_or, not_not, not_not] at relayed
      rcases relayed with state | state <;> simp [state, RunState.hasProcess]
    split at h
    next => cases h
    next =>
      split at h
      next => exact ⟨by rw [List.mem_singleton.mp h], process⟩
      next =>
        refine ⟨?_, process⟩
        rcases List.mem_cons.mp h with rfl | h
        · rfl
        · split at h
          next => rw [List.mem_singleton.mp h]
          next => cases h

theorem consequence_signals {deed : Deed} {call : Pid × Signal}
    (h : call ∈ (x.consequence answers deed).signals) :
    call.1 = x.leader ∧ x.state.hasProcess := by
  cases deed with
  | stop | resume | terminate => exact controlled_signals h
  | remove =>
    simp only [consequence] at h
    split at h <;> cases h
  | report => cases h

end Runner

namespace Supervisor

open Registry

variable {σ : Type} {l : Launcher σ} {answers : Pid → Signal → Except Error Unit} {d : Measures}
  {r : Registry} {live grouped starting : List Nat} {i : Nat}

theorem traced_signal
    (steady : ∀ leader signal w, (l.signal leader signal w).1 = answers leader signal)
    (leader : Pid) (signal : Signal) (w : σ) (calls : List (Pid × Signal)) :
    l.traced.signal leader signal (w, calls) =
      (answers leader signal, (l.signal leader signal w).2, calls ++ [(leader, signal)]) := by
  rw [← steady leader signal w]
  rfl

section

variable (h : r.Sound d live grouped starting) (hi : i ∈ live) (home : String) (w : σ)
  (calls : List (Pid × Signal))

include h hi

theorem serveOne_control {q : Request} {signal : Signal} {after : RunState}
    (steady : ∀ leader signal w, (l.signal leader signal w).1 = answers leader signal)
    (control : q.Control (r.slot i).runId signal after) :
    ∃ r' v, serveOne l.traced ⟨home, r⟩ q (w, calls) =
        (((r.slot i).controlled answers signal after).answer, ⟨home, r'⟩, v,
          calls ++ ((r.slot i).controlled answers signal after).signals) ∧
      r.Rewrites d live grouped starting i ((r.slot i).controlled answers signal after).left r' := by
  have found : r.slotOfRunId? (r.slot i).runId = some i :=
    h.layout.slotOfRunId?_eq_some.mpr ⟨hi, rfl⟩
  rw [serveOne, serve_def]
  simp only [control.request_eq, Supervisor.control, found, Runner.controlled]
  by_cases quiet : (r.slot i).state ≠ .running ∧ (r.slot i).state ≠ .stopped
  · simp only [if_pos quiet]
    exact ⟨r, w, by rw [List.append_nil], h.rewrites_self⟩
  · by_cases same : (r.slot i).state = after
    · simp only [if_neg quiet, if_pos same]
      exact ⟨r, w, by rw [List.append_nil], h.rewrites_self⟩
    · simp only [if_neg quiet, if_neg same, traced_signal steady]
      cases answers (r.slot i).leader signal with
      | error e => exact ⟨r, _, rfl, h.rewrites_self⟩
      | ok _ =>
        have relayed := quiet
        rw [not_and_or, not_not, not_not] at relayed
        have valid : Signalling.Valid ⟨i, signal, (r.slot i).state, after⟩ :=
          ControlThread.valid_of_control control relayed same
        have sound := ControlThread.transition_sound valid h
        have state : (if (r.slot i).state = (r.slot i).state then after
            else (r.slot i).state) = after := if_pos rfl
        have written := h.rewrites_updateState hi (f := fun state =>
          if state = (r.slot i).state then after else state) (state.symm ▸ valid.after) sound
        rw [state] at written
        have leader := leader_transition r i i (r.slot i).state after
        simp only [signalled]
        by_cases twice : (r.slot i).state = .stopped ∧ signal = .term
        · simp only [if_pos twice, leader, List.append_assoc]
          exact ⟨_, _, rfl, written⟩
        · simp only [if_neg twice]
          exact ⟨_, _, rfl, written⟩

theorem serveOne_remove :
    ∃ r' v, serveOne l.traced ⟨home, r⟩ (.remove (r.slot i).runId) (w, calls) =
        (((r.slot i).consequence answers .remove).answer, ⟨home, r'⟩, v,
          calls ++ ((r.slot i).consequence answers .remove).signals) ∧
      r.Rewrites d live grouped starting i ((r.slot i).consequence answers .remove).left r' := by
  have found : r.slotOfRunId? (r.slot i).runId = some i :=
    h.layout.slotOfRunId?_eq_some.mpr ⟨hi, rfl⟩
  simp only [serveOne, serve_def, request, remove, found, Runner.consequence]
  by_cases ended : (r.slot i).state = .terminated
  · simp only [if_pos ended]
    exact ⟨_, w, by rw [List.append_nil]; rfl, h.rewrites_release hi ended⟩
  · simp only [if_neg ended]
    exact ⟨r, w, by rw [List.append_nil]; rfl, h.rewrites_self⟩

omit hi in
theorem notify_leader (hg : i ∈ grouped) (unshared : r.Unshared grouped)
    (groupOf : Pid → Option Pid) (event : ChildEvent) :
    ∃ r', notify groupOf ⟨home, r⟩ (r.slot i).leader event = (⟨home, r'⟩, true) ∧
      r.Rewrites d live grouped starting i
        (some { r.slot i with state := afterEvent event (r.slot i).state }) r' := by
  have layout := h.layout
  have found : r.slotOfPid? groupOf (r.slot i).leader = some i := by
    have first : r.slotOfGroup? (r.slot i).leader = some i := by
      rw [layout.slotOfGroup?_eq]
      refine find?_eq_some_of_unique hg (by simp) fun j hj same => ?_
      exact unshared j hj i hg (by simpa using same)
    rw [slotOfPid?, first, Option.some_or]
  have hi := layout.grouped_live i hg
  have process := h.hasProcess hg
  simp only [notify, Registry.notify, found]
  by_cases terminal : event.isTerminal
  · simp only [if_pos terminal]
    refine ⟨_, rfl, ?_⟩
    have written : afterEvent event (r.slot i).state = .terminated := by
      simp [afterEvent, terminal]
    rw [written]
    exact h.rewrites_finish hg
  · simp only [if_neg terminal]
    by_cases stopped : event = .stopped
    · simp only [if_pos stopped]
      refine ⟨_, rfl, ?_⟩
      have still := RunState.hasProcess_afterReport process (Or.inr rfl)
      have written := h.rewrites_updateState hi still (h.report hg (Or.inr rfl))
      simpa only [afterEvent, if_neg terminal, if_pos stopped] using written
    · simp only [if_neg stopped]
      refine ⟨_, rfl, ?_⟩
      have still := RunState.hasProcess_afterReport process (Or.inl rfl)
      have written := h.rewrites_updateState hi still (h.report hg (Or.inl rfl))
      simpa only [afterEvent, if_neg terminal, if_neg stopped] using written

/-- What an operation comes to depends on its runner alone, and it changes nothing else. -/
theorem perform_traced (unshared : r.Unshared grouped)
    (steady : ∀ leader signal w, (l.signal leader signal w).1 = answers leader signal)
    {deed : Deed} (indexed : deed.isReport → i ∈ grouped) :
    ∃ r' v, perform l.traced ⟨home, r⟩ (r.slot i) (w, calls) deed =
        (((r.slot i).consequence answers deed).answer, ⟨home, r'⟩, v,
          calls ++ ((r.slot i).consequence answers deed).signals) ∧
      r.Rewrites d live grouped starting i ((r.slot i).consequence answers deed).left r' := by
  cases deed with
  | stop => exact serveOne_control h hi home w calls steady (.stop _)
  | resume => exact serveOne_control h hi home w calls steady (.resume _)
  | terminate => exact serveOne_control h hi home w calls steady (.terminate _)
  | remove => exact serveOne_remove (l := l) h hi home w calls
  | report groupOf event =>
    obtain ⟨r', heard, written⟩ := notify_leader h home (indexed rfl) unshared groupOf event
    refine ⟨r', w, ?_, written⟩
    simp only [perform, heard, Runner.consequence, List.append_nil]

end

theorem performBoth_traced {j : Nat} {A B : Deed} (h : r.Sound d live grouped starting)
    (hi : i ∈ live) (hj : j ∈ live) (hne : j ≠ i) (unshared : r.Unshared grouped)
    (steady : ∀ leader signal w, (l.signal leader signal w).1 = answers leader signal)
    (indexed : A.isReport → i ∈ grouped) (indexed' : B.isReport → j ∈ grouped) (home : String)
    (w : σ) :
    ∃ r₁ r₂ v, performBoth l.traced ⟨home, r⟩ (r.slot i) A (r.slot j) B (w, []) =
        ((((r.slot i).consequence answers A).answer, ((r.slot j).consequence answers B).answer),
          ⟨home, r₂⟩, v,
          ((r.slot i).consequence answers A).signals ++
            ((r.slot j).consequence answers B).signals) ∧
      r.Rewrites d live grouped starting i ((r.slot i).consequence answers A).left r₁ ∧
      r₁.Rewrites d (kept ((r.slot i).consequence answers A).left.isSome i live)
        (kept (((r.slot i).consequence answers A).left.any fun y => y.state.hasProcess) i grouped)
        starting j ((r.slot j).consequence answers B).left r₂ := by
  obtain ⟨r₁, v₁, run, first⟩ := perform_traced h hi home w [] unshared steady indexed
  have unshared₁ := first.unshared (fun y hy => Runner.consequence_left hy) unshared
  obtain ⟨r₂, v₂, run', second⟩ := perform_traced first.sound ((mem_kept_of_ne hne).mpr hj) home v₁
    ((r.slot i).consequence answers A).signals unshared₁ steady
    fun report => (mem_kept_of_ne hne).mpr (indexed' report)
  rw [first.other j hne] at run' second
  refine ⟨r₁, r₂, v₂, ?_, first, second⟩
  rw [List.nil_append] at run
  simp only [performBoth, run, run']

end Supervisor

namespace ControlThread

open Registry Supervisor

theorem filter_signals_comm {first second : List (Pid × Signal)}
    (apart : ∀ c ∈ first, ∀ c' ∈ second, c.1 ≠ c'.1) (group : Pid) :
    (first ++ second).filter (·.1 = group) = (second ++ first).filter (·.1 = group) := by
  rw [List.filter_append, List.filter_append]
  by_cases none : first.filter (·.1 = group) = []
  · rw [none, List.nil_append, List.append_nil]
  · obtain ⟨c, hc⟩ := List.exists_mem_of_ne_nil _ none
    obtain ⟨hc, same⟩ := List.mem_filter.mp hc
    have none' : second.filter (·.1 = group) = [] := by
      refine List.filter_eq_nil_iff.mpr fun c' hc' same' => apart c hc c' hc' ?_
      rw [of_decide_eq_true same, of_decide_eq_true same']
    rw [none', List.nil_append, List.append_nil]

/-- Operations on different runners may be performed in either order. -/
theorem performBoth_comm {capacity buckets : UInt64} {maxRunId : UInt32} {home : String}
    {r : Registry} {t : ControlThread} {σ : Type} {l : Launcher σ} {a b : Runner} {A B : Deed}
    (created : Registry.create capacity maxRunId buckets = .ok r)
    (h : Reaches (ofSupervisor ⟨home, r⟩) t)
    (unshared : ∀ x ∈ t.registry.toList, ∀ y ∈ t.registry.toList, x.serial ∈ t.registry.indexed →
      y.serial ∈ t.registry.indexed → x.leader = y.leader → x.serial = y.serial)
    (steady : ∀ leader signal v w, (l.signal leader signal v).1 = (l.signal leader signal w).1)
    (ha : a ∈ t.registry.toList) (hb : b ∈ t.registry.toList) (hab : a.serial ≠ b.serial)
    (reportA : A.isReport → a.serial ∈ t.registry.indexed)
    (reportB : B.isReport → b.serial ∈ t.registry.indexed) (w : σ) :
    (t.supervisor.performBoth l.traced a A b B (w, [])).1 =
      (t.supervisor.performBoth l.traced b B a A (w, [])).1.swap ∧
    (∀ group, (t.supervisor.performBoth l.traced a A b B (w, [])).2.2.2.filter (·.1 = group) =
      (t.supervisor.performBoth l.traced b B a A (w, [])).2.2.2.filter (·.1 = group)) ∧
    (t.supervisor.performBoth l.traced a A b B (w, [])).2.1.registry.Resembles
      (t.supervisor.performBoth l.traced b B a A (w, [])).2.1.registry := by
  obtain ⟨d, live, grouped, sound, _⟩ := sound_of_create created h
  have registry := sound.registry
  have layout := registry.layout
  obtain ⟨i, hi, rfl⟩ := layout.mem_toList.mp ha
  obtain ⟨j, hj, rfl⟩ := layout.mem_toList.mp hb
  have hne : i ≠ j := by
    rintro rfl
    exact hab rfl
  have alone : t.registry.Unshared grouped := by
    intro k hk m hm same
    have hk' := layout.grouped_live k hk
    have hm' := layout.grouped_live m hm
    have serial := unshared _ (layout.mem_toList.mpr ⟨k, hk', rfl⟩) _
      (layout.mem_toList.mpr ⟨m, hm', rfl⟩) ((registry.serial_mem_indexed hk').mpr hk)
      ((registry.serial_mem_indexed hm').mpr hm) same
    exact layout.serial_inj hk' hm' serial
  have indexedA : A.isReport → i ∈ grouped := fun report =>
    (registry.serial_mem_indexed hi).mp (reportA report)
  have indexedB : B.isReport → j ∈ grouped := fun report =>
    (registry.serial_mem_indexed hj).mp (reportB report)
  have answers := fun leader signal v => steady leader signal v w
  obtain ⟨r₁, r₁₂, v, run, first, second⟩ := performBoth_traced registry hi hj hne.symm alone
    answers indexedA indexedB t.supervisor.home w
  obtain ⟨r₂, r₂₁, v', run', first', second'⟩ := performBoth_traced registry hj hi hne alone
    answers indexedB indexedA t.supervisor.home w
  have run₁ : t.supervisor.performBoth l.traced (t.registry.slot i) A (t.registry.slot j) B (w, []) =
    _ := run
  have run₂ : t.supervisor.performBoth l.traced (t.registry.slot j) B (t.registry.slot i) A (w, []) =
    _ := run'
  rw [run₁, run₂]
  refine ⟨rfl, fun group => filter_signals_comm (fun c hc c' hc' same => ?_) group,
    first.resembles hne second first' second'⟩
  obtain ⟨own, process⟩ := Runner.consequence_signals hc
  obtain ⟨own', process'⟩ := Runner.consequence_signals hc'
  rw [own, own'] at same
  have hg := (registry.mem_grouped i hi).mpr process
  have hg' := (registry.mem_grouped j hj).mpr process'
  exact hne (alone i hg j hg' same)

def paired : ControlThread := (ofSupervisor ⟨"/home", .empty 2 4 1⟩).run (fun _ => none) [
  .request (.start notes), .launched (.ok ⟨⟨7⟩, ⟨7⟩⟩), .request (.start notes),
  .launched (.ok ⟨⟨9⟩, ⟨10⟩⟩), .request (.stop ⟨1⟩), .signalled (.ok ())]

def obliging : Launcher Unit where
  launch _ _ := (.error .outOfMemory, ())
  signal _ _ _ := (.ok (), ())

theorem performBoth_paired :
    let older := paired.registry.slot 0
    let newer := paired.registry.slot 1
    let ends := Deed.report (fun _ => none) (.exited 0)
    let one := paired.supervisor.performBoth obliging.traced older .terminate newer ends ((), [])
    let other := paired.supervisor.performBoth obliging.traced newer ends older .terminate ((), [])
    one.2.2.2 = [(⟨7⟩, .term), (⟨7⟩, .cont)] ∧ one.1 = other.1.swap ∧
      (∀ group, one.2.2.2.filter (·.1 = group) = other.2.2.2.filter (·.1 = group)) ∧
      one.2.1.registry.Resembles other.2.1.registry := by
  have older : paired.registry.slot 0 ∈ paired.registry.toList := List.mem_of_find?_eq_some
    (show paired.registry.runner? 0 = some (paired.registry.slot 0) from rfl)
  have newer : paired.registry.slot 1 ∈ paired.registry.toList := List.mem_of_find?_eq_some
    (show paired.registry.runner? 1 = some (paired.registry.slot 1) from rfl)
  exact ⟨rfl, performBoth_comm (show Registry.create 2 4 1 = .ok (.empty 2 4 1) from rfl)
    (reaches_run _ _ _) (by decide +kernel) (fun _ _ _ _ => rfl) older newer (by decide +kernel)
    (fun report => Bool.noConfusion report) (fun _ => by decide +kernel) ()⟩

end ControlThread
end AppSupervisor
