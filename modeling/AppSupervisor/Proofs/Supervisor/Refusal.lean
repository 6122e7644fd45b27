import AppSupervisor.Proofs.Registry.Instances
import AppSupervisor.Proofs.Supervisor.Commutation

namespace AppSupervisor

def Launcher.delivering {σ : Type} (l : Launcher σ) : Launcher (σ × List (Pid × Signal)) where
  launch desc w :=
    let (answer, v) := l.launch desc w.1
    (answer, v, w.2)
  signal leader signal w :=
    let (answer, v) := l.signal leader signal w.1
    (answer, v, if answer.isOk then w.2 ++ [(leader, signal)] else w.2)

inductive Request.About : Request → RunId → Prop
  | control {q : Request} {id : RunId} {signal : Signal} {after : RunState}
      (h : q.Control id signal after) : About q id
  | remove (id : RunId) : About (.remove id) id

namespace Supervisor

variable {σ : Type}

/-- Why a request about a runner fails, and what the launcher's surroundings are then. -/
inductive Refuses (l : Launcher σ) (w : σ) (s : Supervisor) (id : RunId) :
    Request → Error → σ → Prop
  | unknown {q : Request} (about : q.About id) (absent : s.registry.lookupRunId id = none) :
      Refuses l w s id q (.notFound id) w
  | unrelayed {q : Request} {signal : Signal} {after : RunState} {x : Runner}
      (control : q.Control id signal after) (found : s.registry.lookupRunId id = some x)
      (quiet : x.state ≠ .running ∧ x.state ≠ .stopped) :
      Refuses l w s id q (.denied id x.state) w
  | unended {x : Runner} (found : s.registry.lookupRunId id = some x)
      (unended : x.state ≠ .terminated) :
      Refuses l w s id (.remove id) (.denied id x.state) w
  | unsent {q : Request} {signal : Signal} {after : RunState} {x : Runner} {e : Error} {v : σ}
      (control : q.Control id signal after) (found : s.registry.lookupRunId id = some x)
      (relayed : x.state = .running ∨ x.state = .stopped) (differ : x.state ≠ after)
      (answer : l.signal x.leader signal w = (.error e, v)) :
      Refuses l w s id q e v

/-- What a terminate comes to whose signal the runner `x` was sent. -/
structure Terminates (l : Launcher σ) (w : σ) (s : Supervisor) (x : Runner) (s' : Supervisor)
    (delivered : List (Pid × Signal)) : Prop where
  home : s'.home = s.home
  state : s'.registry.lookupRunId x.runId = some { x with state := .terminating }
  others : ∀ n ≠ x.serial, s'.registry.runner? n = s.registry.runner? n
  signals : delivered = (x.leader, .term) ::
    if x.state = .stopped ∧ (l.signal x.leader .cont (l.signal x.leader .term w).2).1.isOk then
      [(x.leader, .cont)]
    else []

/-- A request about a runner that fails has not done anything, and a terminate that has done
something does not fail. -/
structure Failsafe (l : Launcher σ) (w : σ) (s : Supervisor) (id : RunId) : Prop where
  failed : ∀ q, q.About id → ∀ e s' v delivered,
    s.serve l.delivering q (w, []) = (.error e, s', v, delivered) →
    s' = s ∧ delivered = [] ∧ s.Refuses l w id q e v
  delivered_iff : ∀ leader,
    (leader, .term) ∈ (s.serve l.delivering (.terminate id) (w, [])).2.2.2 ↔
    ∃ x, s.registry.lookupRunId id = some x ∧ (x.state = .running ∨ x.state = .stopped) ∧
      x.leader = leader ∧ (l.signal leader .term w).1 = .ok ()
  terminated : ∀ leader result s' v delivered,
    s.serve l.delivering (.terminate id) (w, []) = (result, s', v, delivered) →
    (leader, .term) ∈ delivered → result = .ok .accepted ∧
    ∃ x, s.registry.lookupRunId id = some x ∧ x.leader = leader ∧
      s.Terminates l w x s' delivered

theorem delivering_signal {l : Launcher σ} {w v : σ} {leader : Pid} {signal : Signal}
    {answer : Except Error Unit} (h : l.signal leader signal w = (answer, v))
    (delivered : List (Pid × Signal)) :
    l.delivering.signal leader signal (w, delivered) =
      (answer, v, if answer.isOk then delivered ++ [(leader, signal)] else delivered) := by
  simp only [Launcher.delivering, h]

inductive Relays (l : Launcher σ) (w : σ) (s : Supervisor) (q : Request) (id : RunId)
    (signal : Signal) (after : RunState) :
    Except Error Reply × Supervisor × σ × List (Pid × Signal) → Prop
  | refused {e : Error} {v : σ} (why : s.Refuses l w id q e v) :
      Relays l w s q id signal after (.error e, s, v, [])
  | already {x : Runner} (found : s.registry.lookupRunId id = some x) (same : x.state = after) :
      Relays l w s q id signal after (.ok .accepted, s, w, [])
  | sent {i : Nat} {u v : σ} {more : List (Pid × Signal)}
      (found : s.registry.slotOfRunId? id = some i)
      (relayed : (s.registry.slot i).state = .running ∨ (s.registry.slot i).state = .stopped)
      (differ : (s.registry.slot i).state ≠ after)
      (answer : l.signal (s.registry.slot i).leader signal w = (.ok (), v))
      (continued : more = if ((s.registry.slot i).state = .stopped ∧ signal = .term) ∧
          (l.signal (s.registry.slot i).leader .cont v).1.isOk then
        [((s.registry.slot i).leader, .cont)] else []) :
      Relays l w s q id signal after
        (.ok .accepted,
          { s with registry := s.registry.transition i (s.registry.slot i).state after }, u,
          ((s.registry.slot i).leader, signal) :: more)

theorem relays_serve (l : Launcher σ) (w : σ) (s : Supervisor) {q : Request} {id : RunId}
    {signal : Signal} {after : RunState} (control : q.Control id signal after) :
    s.Relays l w q id signal after (s.serve l.delivering q (w, [])) := by
  have controls := s.controls_control id signal after
  rw [serve_def, control.request_eq]
  generalize s.control id signal after = turn at controls ⊢
  cases controls with
  | unknown none =>
    have absent : s.registry.lookupRunId id = Option.none := by
      rw [Registry.lookupRunId, none, Option.map_none]
    exact .refused (.unknown (.control control) absent)
  | denied found quiet =>
    exact .refused (.unrelayed control (Registry.lookupRunId_of_slot found) quiet)
  | already found _ same => exact .already (Registry.lookupRunId_of_slot found) same
  | @asks i found relayed differ =>
    rcases hv : l.signal (s.registry.slot i).leader signal w with ⟨answer, v⟩
    cases answer with
    | error e =>
      simp only [delivering_signal hv, signalled]
      exact .refused (.unsent control (Registry.lookupRunId_of_slot found) relayed differ hv)
    | ok _ =>
      -- The leader of the second signal is read after the state was written.
      have leader := Registry.leader_transition s.registry i i (s.registry.slot i).state after
      simp only [delivering_signal hv, signalled]
      by_cases twice : (s.registry.slot i).state = .stopped ∧ signal = .term
      · rcases hu : l.signal (s.registry.slot i).leader .cont v with ⟨second, u⟩
        simp only [if_pos twice, leader, delivering_signal hu]
        cases second with
        | error e =>
          exact .sent found relayed differ hv (by simp [hu, Except.isOk, Except.toBool])
        | ok _ =>
          exact .sent found relayed differ hv (by simp [hu, twice, Except.isOk, Except.toBool])
      · simp only [if_neg twice]
        exact .sent found relayed differ hv (by simp [twice])

theorem failed_remove {l : Launcher σ} {w v : σ} {s s' : Supervisor} {id : RunId} {e : Error}
    {delivered : List (Pid × Signal)}
    (h : s.serve l.delivering (.remove id) (w, []) = (.error e, s', v, delivered)) :
    s' = s ∧ delivered = [] ∧ s.Refuses l w id (.remove id) e v := by
  simp only [serve_def, request, remove] at h
  split at h
  next absent =>
    cases h
    refine ⟨rfl, rfl, .unknown (.remove id) ?_⟩
    rw [Registry.lookupRunId, absent, Option.map_none]
  next i found =>
    split at h
    next => cases h
    next unended =>
      cases h
      exact ⟨rfl, rfl, .unended (Registry.lookupRunId_of_slot found) unended⟩

section

open Registry

variable {d : Measures} {s : Supervisor} {live grouped starting : List Nat}

theorem terminates_of_sent {l : Launcher σ} {w v : σ} {i : Nat} {more : List (Pid × Signal)}
    (h : s.registry.Sound d live grouped starting) (hi : i ∈ live)
    (answer : l.signal (s.registry.slot i).leader .term w = (.ok (), v))
    (continued : more = if ((s.registry.slot i).state = .stopped ∧ Signal.term = .term) ∧
        (l.signal (s.registry.slot i).leader .cont v).1.isOk then
      [((s.registry.slot i).leader, .cont)] else []) :
    s.Terminates l w (s.registry.slot i)
      { s with registry := s.registry.transition i (s.registry.slot i).state .terminating }
      (((s.registry.slot i).leader, .term) :: more) := by
  have size := h.layout.lt_size hi
  have slot : (s.registry.transition i (s.registry.slot i).state .terminating).slot i =
      { s.registry.slot i with state := .terminating } := by
    rw [transition, slot_updateState, if_pos ⟨rfl, size⟩, if_pos rfl]
  have layout : (s.registry.transition i (s.registry.slot i).state .terminating).Layout d live
    grouped := h.layout.updateState i _
  refine ⟨rfl, ?_, fun n hne => h.layout.runner?_transition_of_ne hi hne _ _, ?_⟩
  · have found := layout.lookupRunId_slot hi
    rwa [slot] at found
  · rw [continued, answer]
    simp only [and_true]

theorem mem_signals {x : Runner} {leader : Pid} {p : Prop} [Decidable p] :
    (leader, Signal.term) ∈ (x.leader, Signal.term) :: (if p then [(x.leader, .cont)] else []) ↔
      x.leader = leader := by
  split <;> simp [eq_comm]

theorem delivered_iff (l : Launcher σ) (w : σ) (s : Supervisor) (id : RunId) (leader : Pid) :
    (leader, .term) ∈ (s.serve l.delivering (.terminate id) (w, [])).2.2.2 ↔
    ∃ x, s.registry.lookupRunId id = some x ∧ (x.state = .running ∨ x.state = .stopped) ∧
      x.leader = leader ∧ (l.signal leader .term w).1 = .ok () := by
  have relays := s.relays_serve l w (.terminate id)
  generalize s.serve l.delivering (.terminate id) (w, []) = outcome at relays ⊢
  cases relays with
  | refused why =>
    refine ⟨(nomatch ·), fun ⟨x, found, relayed, own, accepted⟩ => ?_⟩
    exfalso
    subst own
    cases why with
    | unknown _ absent => cases found.symm.trans absent
    | unrelayed _ found' quiet =>
      obtain rfl := Option.some.inj (found.symm.trans found')
      exact relayed.elim quiet.1 quiet.2
    | unsent control found' _ _ answer =>
      obtain rfl := Option.some.inj (found.symm.trans found')
      cases control
      rw [answer] at accepted
      cases accepted
  | already found' same =>
    refine ⟨(nomatch ·), fun ⟨x, found, relayed, _⟩ => ?_⟩
    obtain rfl := Option.some.inj (found.symm.trans found')
    rw [same] at relayed
    rcases relayed with he | he <;> cases he
  | @sent i u v more found relayed _ answer continued =>
    have looked := Registry.lookupRunId_of_slot found
    subst continued
    rw [mem_signals]
    constructor
    · rintro rfl
      exact ⟨_, looked, relayed, rfl, by rw [answer]⟩
    · rintro ⟨x, found', _, own, _⟩
      obtain rfl := Option.some.inj (looked.symm.trans found')
      exact own

theorem failsafe_of_sound (h : s.registry.Sound d live grouped starting) (l : Launcher σ) (w : σ)
    (id : RunId) : s.Failsafe l w id := by
  have relays := s.relays_serve l w (.terminate id)
  refine ⟨fun q about e s' v delivered failed => ?_, s.delivered_iff l w id,
    fun leader result s' v delivered served sent => ?_⟩
  · cases about with
    | control control =>
      have relays := s.relays_serve l w control
      rw [failed] at relays
      cases relays with
      | refused why => exact ⟨rfl, rfl, why⟩
    | remove => exact failed_remove failed
  · rw [served] at relays
    cases relays with
    | refused | already => cases sent
    | @sent i u v more found relayed differ answer continued =>
      obtain ⟨hi, rfl⟩ := h.layout.slotOfRunId?_eq_some.mp found
      have own : (s.registry.slot i).leader = leader := mem_signals.mp (continued ▸ sent)
      have terminates := terminates_of_sent h hi answer continued
      exact ⟨rfl, _, Registry.lookupRunId_of_slot found, own, terminates⟩

end

end Supervisor

namespace ControlThread

/-- Whatever came before, a control request or removal that fails leaves everything as it was. -/
theorem failsafe_of_reaches {capacity buckets : UInt64} {maxRunId : UInt32} {home : String}
    {r : Registry} {t : ControlThread} {σ : Type}
    (created : Registry.create capacity maxRunId buckets = .ok r)
    (h : Reaches (ofSupervisor ⟨home, r⟩) t) (l : Launcher σ) (w : σ) (id : RunId) :
    t.supervisor.Failsafe l w id := by
  obtain ⟨_, _, _, sound, _⟩ := sound_of_create created h
  exact Supervisor.failsafe_of_sound sound.registry l w id

def choosy (refused : List Signal) : Launcher Unit where
  launch _ _ := (.error .outOfMemory, ())
  signal _ signal _ := (if signal ∈ refused then .error .signalRefused else .ok (), ())

theorem failsafe_paired :
    let answer := paired.supervisor.serve (choosy [.cont]).delivering (.terminate ⟨1⟩) ((), [])
    (answer.1 = .ok .accepted ∧ answer.2.2.2 = [(⟨7⟩, .term)]) ∧
    (∃ x, paired.registry.lookupRunId ⟨1⟩ = some x ∧ x.state = .stopped ∧
      paired.supervisor.Terminates (choosy [.cont]) () x answer.2.1 answer.2.2.2) ∧
    paired.supervisor.Failsafe (choosy [.cont]) () ⟨1⟩ := by
  have reached : Reaches (ofSupervisor ⟨"/home", .empty 2 4 1⟩) paired := reaches_run _ _ _
  have failsafe := failsafe_of_reaches
    (show Registry.create 2 4 1 = .ok (.empty 2 4 1) from rfl) reached (choosy [.cont]) () ⟨1⟩
  obtain ⟨_, x, found, _, terminates⟩ := failsafe.terminated ⟨7⟩ _ _ _ _ rfl (.head _)
  obtain rfl : paired.registry.slot 0 = x := Option.some.inj (.trans (by rfl) found)
  exact ⟨⟨rfl, rfl⟩, ⟨_, found, rfl, terminates⟩, failsafe⟩

end ControlThread
end AppSupervisor
