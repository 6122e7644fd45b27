import Mathlib.Tactic.IntervalCases
import AppSupervisor.Proofs.ControlThread.Course
import AppSupervisor.Proofs.Registry.Notification

namespace AppSupervisor

theorem Request.Control.eq {q : Request} {id : RunId} {signal : Signal} {after : RunState}
    (control : q.Control id signal after) :
    q = .stop id ∧ signal = .stop ∧ after = .stopped ∨
      q = .resume id ∧ signal = .cont ∧ after = .running ∨
      q = .terminate id ∧ signal = .term ∧ after = .terminating := by
  cases control with
  | stop => exact Or.inl ⟨rfl, rfl, rfl⟩
  | resume => exact Or.inr (Or.inl ⟨rfl, rfl, rfl⟩)
  | terminate => exact Or.inr (Or.inr ⟨rfl, rfl, rfl⟩)

theorem Request.Control.id_eq {q : Request} {id id' : RunId} {signal signal' : Signal}
    {after after' : RunState} (control : q.Control id signal after)
    (control' : q.Control id' signal' after') : id = id' := by
  cases control <;> cases control' <;> rfl

namespace ControlThread

/-- A move sends a signal: a control request its first one, the answer to SIGTERM the second. -/
inductive Sends (t : ControlThread) : Move → ControlThread → Pid → Signal → Prop
  | first {q : Request} {id : RunId} {p : Signalling} (control : q.Control id p.signal p.after)
      (asked : t.Asked id p) :
      Sends t (.request q) (t.update t.registry (.signalling p :: t.waiting))
        (t.registry.slot p.slot).leader p.signal
  | second {p : Signalling} {rest : List Waiting} (top : t.waiting = .signalling p :: rest)
      (twice : p.before = .stopped ∧ p.signal = .term) :
      Sends t (.signalled (.ok ()))
        (t.update (t.registry.transition p.slot p.before p.after) (.continuing :: rest))
        (t.registry.slot p.slot).leader .cont

def Calm (waiting : List Waiting) : Prop := ∀ w ∈ waiting, ∃ p, w = .launching p

variable {groupOf : Pid → Option Pid} {t u : ControlThread} {m : Move} {q : Request} {id : RunId}
  {leader : Pid} {signal : Signal} {after : RunState}

theorem sends_of_control (control : q.Control id signal after) {signal' : Signal}
    (h : (t.step groupOf (.request q)).2 = .signalling leader signal') :
    t.Sends (.request q) (t.step groupOf (.request q)).1 leader signal' := by
  have begins : t.Begins id signal after (t.step groupOf (.request q)) := begins_step control
  generalize t.step groupOf (.request q) = result at begins h ⊢
  cases begins with
  | unknown | denied | already => cases h
  | asks asked hs ha =>
    cases h
    subst hs ha
    exact .first control asked

theorem signalling_of_asked {p : Signalling} (control : q.Control id p.signal p.after)
    (asked : t.Asked id p) : (t.step groupOf (.request q)).2 =
      .signalling (t.registry.slot p.slot).leader p.signal := by
  have begins : t.Begins id p.signal p.after (t.step groupOf (.request q)) := begins_step control
  generalize t.step groupOf (.request q) = result at begins ⊢
  cases begins with
  | unknown none => simp [asked.found] at none
  | denied found quiet =>
    cases asked.found.symm.trans found
    rw [asked.before] at quiet
    exact (asked.relayed.elim quiet.1 quiet.2).elim
  | already found _ same =>
    cases asked.found.symm.trans found
    exact absurd (asked.before.symm.trans same) asked.differ
  | asks asked' =>
    have slot := asked.found.symm.trans asked'.found
    rw [Option.some.inj slot]

theorem sends_of_signalling (h : (t.step groupOf m).2 = .signalling leader signal) :
    t.Sends m (t.step groupOf m).1 leader signal := by
  cases m with
  | request q =>
    cases q with
    | start manifest =>
      have starts : t.Starts manifest (t.step groupOf (.request (.start manifest))) :=
        starts_step manifest
      generalize t.step groupOf (.request (.start manifest)) = result at starts h
      cases starts <;> cases h
    | stop id => exact sends_of_control (.stop id) h
    | resume id => exact sends_of_control (.resume id) h
    | terminate id => exact sends_of_control (.terminate id) h
    | _ => cases h
  | notify => cases h
  | launched answer =>
    simp only [step] at h
    split at h <;> cases h
  | signalled answer =>
    cases hw : t.waiting with
    | nil => simp [step, hw] at h
    | cons top rest =>
      cases top with
      | launching => simp [step, hw] at h
      | continuing =>
        rw [step_continued hw] at h
        cases h
      | signalling p =>
        cases answer with
        | error e =>
          rw [step_refused hw] at h
          cases h
        | ok _ =>
          by_cases twice : p.before = .stopped ∧ p.signal = .term
          · rw [step_sent_twice hw twice] at h ⊢
            cases h
            exact .second hw twice
          · rw [step_sent hw twice] at h
            cases h

theorem Calm.suffix {waiting rest : List Waiting} (calm : Calm waiting) (h : rest <:+ waiting) :
    Calm rest := fun w hw => calm w (h.subset hw)

theorem calm_step (calm : Calm t.waiting)
    (silent : ∀ leader signal, (t.step groupOf m).2 ≠ .signalling leader signal) :
    Calm (t.step groupOf m).1.waiting := by
  have e := effect_step groupOf t m
  generalize hu : (t.step groupOf m).1 = u at e
  cases e with
  | idle | reclaimed | removed | ended | reported => exact calm
  | allocated =>
    intro w hw
    rcases List.mem_cons.mp hw with rfl | hw
    · exact ⟨_, rfl⟩
    · exact calm w hw
  | asked control found before relayed differ =>
    exact absurd (signalling_of_asked control ⟨found, before, relayed, differ⟩) (silent _ _)
  | launched top | failed top | unsignalled top | continued top =>
    exact calm.suffix (top ▸ List.suffix_cons _ _)
  | signalled top _ =>
    obtain ⟨_, launching⟩ := calm _ (top ▸ List.mem_cons_self)
    cases launching

theorem calm_answer {w : Waiting} {rest : List Waiting} (top : t.waiting = w :: rest)
    (signals : ∀ p, w ≠ .launching p) (calm : Calm rest) {answer : Except Error Unit}
    (silent : ∀ leader signal, (t.step groupOf (.signalled answer)).2 ≠ .signalling leader signal) :
    Calm (t.step groupOf (.signalled answer)).1.waiting := by
  cases w with
  | launching p => exact absurd rfl (signals p)
  | continuing => rwa [step_continued top]
  | signalling p =>
    cases answer with
    | error e => rwa [step_refused top]
    | ok _ =>
      by_cases twice : p.before = .stopped ∧ p.signal = .term
      · rw [step_sent_twice top twice] at silent
        exact absurd rfl (silent _ _)
      · rwa [step_sent top twice]

end ControlThread

namespace Course

open ControlThread

/-- While a signal is sent the supervisor is left alone: the launcher's answer comes next. -/
def Undisturbed (c : Course) : Prop :=
  ∀ k leader signal, c.outcome k = .signalling leader signal →
    ∃ answer, c.move (k + 1) = .signalled answer

inductive Signals (c : Course) (n : Nat) (q : Request) : Nat → Pid → Signal → Prop
  | first {k : Nat} {id : RunId} {s : Runner} {signal signal' : Signal} {after : RunState}
      {leader : Pid} (made : c.move k = .request q) (control : q.Control id signal after)
      (named : (c.registry k).lookupRunId id = some s) (own : s.serial = n)
      (sends : c.outcome k = .signalling leader signal') : Signals c n q k leader signal'
  | next {k : Nat} {leader leader' : Pid} {signal signal' : Signal} {answer : Except Error Unit}
      (before : Signals c n q k leader signal) (answered : c.move (k + 1) = .signalled answer)
      (sends : c.outcome (k + 1) = .signalling leader' signal') :
      Signals c n q (k + 1) leader' signal'

/-- The signal is sent, and the launcher does not refuse it. -/
structure Delivers (c : Course) (n : Nat) (q : Request) (k : Nat) (leader : Pid)
    (signal : Signal) : Prop where
  sent : c.Signals n q k leader signal
  accepted : c.move (k + 1) = .signalled (.ok ())

/-- The signals that one runner ever gets. A signal is delivered at the move that answers it. -/
structure SignalHistory (c : Course) (n : Nat) : Prop where
  own : ∀ {q k leader signal}, c.Delivers n q k leader signal →
    (∃ j < k, ∃ children, c.Launched n j children) ∧
      ∀ {j children}, c.Launched n j children → leader = children.leader
  stop : ∀ {q k leader}, c.Delivers n q k leader .stop →
    (c.registry (k + 1)).state? n = some .running
  /-- SIGCONT comes from a resume of the Stopped runner, or directly after SIGTERM to it. -/
  cont : ∀ {q k leader}, c.Delivers n q k leader .cont →
    (∃ id, q = .resume id ∧ (c.registry (k + 1)).state? n = some .stopped) ∨
      ∃ j, k = j + 1 ∧ c.Delivers n q j leader .term ∧
        (c.registry (j + 1)).state? n = some .stopped
  once : ∀ {q q' j k leader leader'}, c.Delivers n q j leader .term →
    c.Delivers n q' k leader' .term → j = k
  /-- After SIGTERM there may only be the SIGCONT of the same request. -/
  last : ∀ {q q' j k leader leader' signal}, c.Delivers n q j leader .term → j < k →
    c.Delivers n q' k leader' signal → k = j + 1 ∧ signal = .cont ∧ q' = q
  ended : ∀ {j pid event q k leader signal}, c.move j = .notify pid event → event.isTerminal →
    (c.registry j).owner? (c.groupOf j) pid = some n → c.Delivers n q k leader signal → k + 1 < j

structure Asks (c : Course) (n : Nat) (q : Request) (k : Nat) (id : RunId) (p : Signalling) :
    Prop where
  made : c.move k = .request q
  control : q.Control id p.signal p.after
  asked : (c.thread k).Asked id p
  serial : ((c.registry k).slot p.slot).serial = n
  next : c.thread (k + 1) = (c.thread k).update (c.registry k) (.signalling p :: (c.thread k).waiting)

variable {d : Measures} {c : Course} {i j k n : Nat} {q q' : Request} {id : RunId} {p : Signalling}
  {leader leader' : Pid} {signal signal' : Signal}

theorem sends (h : c.outcome k = .signalling leader signal) :
    (c.thread k).Sends (c.move k) (c.thread (k + 1)) leader signal :=
  sends_of_signalling h

namespace Asks

theorem waits (asks : c.Asks n q k id p) :
    (c.thread (k + 1)).waiting = .signalling p :: (c.thread k).waiting := by
  rw [asks.next, waiting_update]

theorem registry_eq (asks : c.Asks n q k id p) : c.registry (k + 1) = c.registry k := by
  rw [registry, asks.next, registry_update]

theorem kind (asks : c.Asks n q k id p) :
    q = .stop id ∧ p.signal = .stop ∧ p.before = .running ∨
      q = .resume id ∧ p.signal = .cont ∧ p.before = .stopped ∨
      q = .terminate id ∧ p.signal = .term ∧ p.after = .terminating := by
  have relayed := asks.asked.relayed
  have differ := asks.asked.differ
  rcases asks.control.eq with ⟨made, signal, after⟩ | ⟨made, signal, after⟩ | terminate
  · have running := relayed.resolve_right fun before => differ (before.trans after.symm)
    exact Or.inl ⟨made, signal, running⟩
  · have stopped := relayed.resolve_left fun before => differ (before.trans after.symm)
    exact Or.inr (Or.inl ⟨made, signal, stopped⟩)
  · exact Or.inr (Or.inr terminate)

end Asks

theorem Signals.asks (call : c.Signals n q k leader signal) :
    ∃ j id p, c.Asks n q j id p ∧ leader = ((c.registry j).slot p.slot).leader ∧
      (k = j ∧ signal = p.signal ∨
        k = j + 1 ∧ signal = .cont ∧ p.before = .stopped ∧ c.Delivers n q j leader .term ∧
          (c.thread (k + 1)).waiting = .continuing :: (c.thread j).waiting) := by
  induction call with
  | @first k id s signal signal' after leader made control named own sends =>
    have sent := c.sends sends
    rw [made] at sent
    generalize hu : c.thread (k + 1) = u at sent
    cases sent with
    | @first _ id' p control' asked =>
      obtain rfl := control.id_eq control'
      obtain ⟨slot, found, rfl⟩ := Option.map_eq_some_iff.mp named
      cases asked.found.symm.trans found
      exact ⟨k, id, p, ⟨made, control', asked, own, hu⟩, rfl, Or.inl ⟨rfl, rfl⟩⟩
  | @next k leader leader' signal signal' answer before answered sends ih =>
    obtain ⟨j, id, p, asks, own, ⟨rfl, same⟩ | ⟨rfl, _, _, _, waits⟩⟩ := ih
    · have sent := c.sends sends
      rw [answered] at sent
      generalize hu : c.thread (k + 1 + 1) = u at sent
      generalize hm : Move.signalled answer = m at sent answered
      cases sent with
      | first => cases hm
      | second top twice =>
        cases asks.waits.symm.trans top
        have leader_eq : ((c.registry (k + 1)).slot p.slot).leader = leader := by
          rw [asks.registry_eq, own]
        have term : signal = .term := same.trans twice.2
        have delivers : c.Delivers n q k leader .term := ⟨term ▸ before, answered⟩
        exact ⟨k, id, p, asks, leader_eq.trans own,
          Or.inr ⟨rfl, rfl, twice.1, leader_eq.symm ▸ delivers, rfl⟩⟩
    · rw [outcome, answered, step_continued waits] at sends
      cases sends

section

variable (h : c.Sound d)

include h

theorem Asks.runner? (asks : c.Asks n q k id p) : ∃ s, (c.registry k).runner? n = some s ∧
    (c.registry (k + 1)).runner? n = some s ∧ s.leader = ((c.registry k).slot p.slot).leader ∧
      s.state = p.before := by
  obtain ⟨_, _, sound⟩ := h k
  obtain ⟨hi, _⟩ := sound.registry.layout.slotOfRunId?_eq_some.mp asks.asked.found
  have found := sound.registry.layout.runner?_slot hi
  rw [asks.serial] at found
  exact ⟨_, found, asks.registry_eq.symm ▸ found, rfl, asks.asked.before⟩

theorem Asks.state? (asks : c.Asks n q k id p) : (c.registry k).state? n = some p.before ∧
    (c.registry (k + 1)).state? n = some p.before := by
  obtain ⟨s, before, after, _, state⟩ := asks.runner? h
  rw [Registry.state?, before, Registry.state?, after, Option.map_some, state]
  exact ⟨rfl, rfl⟩

theorem Asks.lt_of_leaving (asks : c.Asks n q k id p) {s : RunState}
    (state : (c.registry i).state? n = some s) (gone : s.isGone) : k < i := by
  by_contra late
  have hik : i ≤ k := Nat.not_lt.mp late
  obtain ⟨_, _, sound⟩ := h i
  have lt : n < (c.registry i).allocations := by
    obtain ⟨x, hx, _⟩ := Option.map_eq_some_iff.mp state
    exact sound.registry.layout.lt_allocations hx
  have leaving : Leaving ((c.registry i).state? n) := by
    intro s' hs'
    cases state.symm.trans hs'
    exact gone
  have left := (c.reaches_of_le hik).keeps (fun lt p => p.leaving lt) sound lt leaving
  have shown := left _ (asks.state? h).1
  rcases asks.asked.relayed with before | before
  · simp [before, RunState.isGone] at shown
  · simp [before, RunState.isGone] at shown

theorem Asks.terminating (asks : c.Asks n q k id p) (term : p.signal = .term)
    (accepted : c.move (k + 1) = .signalled (.ok ())) :
    (c.registry (k + 2)).state? n = some .terminating := by
  have after : p.after = .terminating := by
    rcases asks.kind with ⟨_, other, _⟩ | ⟨_, other, _⟩ | ⟨_, _, after⟩
    · cases term.symm.trans other
    · cases term.symm.trans other
    · exact after
  have written : c.registry (k + 2) =
      (c.registry (k + 1)).transition p.slot p.before p.after := by
    by_cases twice : p.before = .stopped ∧ p.signal = .term
    · rw [registry, thread, accepted, step_sent_twice asks.waits twice, registry_update]
    · rw [registry, thread, accepted, step_sent asks.waits twice, registry_update]
  obtain ⟨_, _, sound⟩ := h k
  have layout := sound.registry.layout
  obtain ⟨hi, _⟩ := layout.slotOfRunId?_eq_some.mp asks.asked.found
  have state := layout.state?_transition hi p.before p.after
  rw [asks.serial, if_pos asks.asked.before, after] at state
  rw [written, asks.registry_eq, after]
  exact state

theorem terminated_of_notify {pid : Pid} {event : ChildEvent} (made : c.move j = .notify pid event)
    (terminal : event.isTerminal) (owner : (c.registry j).owner? (c.groupOf j) pid = some n) :
    (c.registry (j + 1)).state? n = some .terminated := by
  have heard : c.registry (j + 1) = (c.registry j).hear ⟨c.groupOf j, pid, event⟩ := by
    rw [registry, thread, made]
    rfl
  obtain ⟨_, _, sound⟩ := h j
  rw [heard, sound.registry.layout.hear_terminated_iff]
  exact Or.inr ⟨terminal, owner⟩

theorem Delivers.asks_of_term (first : c.Delivers n q j leader .term) :
    ∃ id p, c.Asks n q j id p ∧ p.signal = .term ∧
      ∀ {q' i id' p'}, c.Asks n q' i id' p' → i ≤ j := by
  obtain ⟨_, id, p, asks, _, ⟨rfl, term⟩ | ⟨_, cont, _⟩⟩ := first.sent.asks
  · refine ⟨id, p, asks, term.symm, fun {q' i id' p'} asks' => ?_⟩
    have before := asks'.lt_of_leaving h (asks.terminating h term.symm first.accepted) rfl
    have other : i ≠ j + 1 := by
      rintro rfl
      cases asks'.made.symm.trans first.accepted
    omega
  · cases cont

theorem history (empty : (c.registry 0).runner? n = none) : c.SignalHistory n where
  own {q k leader signal} delivers := by
    obtain ⟨j, id, p, asks, rfl, sent⟩ := delivers.sent.asks
    obtain ⟨s, found, _, leader, state⟩ := asks.runner? h
    have launched : s.state ≠ .starting := by
      rw [state]
      rcases asks.asked.relayed with before | before <;> simp [before]
    obtain ⟨i, hij, children, answered, _⟩ := c.launched_before h empty found launched
    refine ⟨⟨i, by omega, children, answered⟩, fun answered => ?_⟩
    rw [← leader]
    exact (answered.leader_eq h found launched).1
  stop {q k leader} delivers := by
    obtain ⟨j, id, p, asks, _, ⟨rfl, stop⟩ | ⟨_, cont, _⟩⟩ := delivers.sent.asks
    · rcases asks.kind with ⟨_, _, running⟩ | ⟨_, other, _⟩ | ⟨_, other, _⟩
      · rw [← running]
        exact (asks.state? h).2
      · cases stop.trans other
      · cases stop.trans other
    · cases cont
  cont {q k leader} delivers := by
    obtain ⟨j, id, p, asks, _, ⟨rfl, cont⟩ | ⟨rfl, _, stopped, first, _⟩⟩ := delivers.sent.asks
    · rcases asks.kind with ⟨_, other, _⟩ | ⟨made, _, stopped⟩ | ⟨_, other, _⟩
      · cases cont.trans other
      · refine Or.inl ⟨id, made, ?_⟩
        rw [← stopped]
        exact (asks.state? h).2
      · cases cont.trans other
    · refine Or.inr ⟨j, rfl, first, ?_⟩
      rw [← stopped]
      exact (asks.state? h).2
  once {q q' j k leader leader'} first second := by
    obtain ⟨_, _, asks, _, early⟩ := first.asks_of_term h
    obtain ⟨_, _, asks', _, early'⟩ := second.asks_of_term h
    exact Nat.le_antisymm (early' asks) (early asks')
  last {q q' j k leader leader' signal} first hjk delivers := by
    obtain ⟨id, p, asks, _, early⟩ := first.asks_of_term h
    obtain ⟨i, id', p', asks', _, ⟨rfl, _⟩ | ⟨rfl, cont, _⟩⟩ := delivers.sent.asks
    · have := early asks'
      omega
    · obtain rfl : i = j := by
        have := early asks'
        omega
      have same := asks.made.symm.trans asks'.made
      cases same
      exact ⟨rfl, cont, rfl⟩
  ended {j pid event q k leader signal} made terminal owner delivers := by
    have gone := c.terminated_of_notify h made terminal owner
    -- Neither the request nor its answers are the notification, so none of them is at its place.
    have apart : ∀ {i m}, c.move i = m → (∀ pid event, m ≠ .notify pid event) → i ≠ j := by
      intro i m hm other he
      subst he hm
      exact other _ _ made
    obtain ⟨i, id, p, asks, _, sent⟩ := delivers.sent.asks
    have early := asks.lt_of_leaving h gone rfl
    have asked := apart asks.made (by simp)
    have answered := apart delivers.accepted (by simp)
    rcases sent with ⟨rfl, _⟩ | ⟨rfl, _, _, first, _⟩
    · omega
    · have accepted := apart first.accepted (by simp)
      omega

end

/-- Besides launches only the signal waits that was sent just before, and it is answered next. -/
def Tidy (c : Course) (k : Nat) : Prop :=
  Calm (c.thread k).waiting ∨ ∃ j n q leader signal answer, k = j + 1 ∧
    c.Signals n q j leader signal ∧ c.move k = .signalled answer ∧
      ∃ w rest, (c.thread k).waiting = w :: rest ∧ (∀ p, w ≠ .launching p) ∧ Calm rest

theorem Tidy.signals (tidy : c.Tidy k) (sent : c.outcome k = .signalling leader signal) :
    ∃ n q, c.Signals n q k leader signal := by
  rcases tidy with calm | ⟨j, n, q, _, _, _, rfl, before, answered, _⟩
  · have sends := c.sends sent
    generalize hm : c.move k = m at sends
    generalize c.thread (k + 1) = u at sends
    cases sends with
    | @first q id p control asked =>
      have named : (c.registry k).lookupRunId id = some ((c.registry k).slot p.slot) := by
        rw [Registry.lookupRunId, asked.found, Option.map_some]
      exact ⟨_, q, .first hm control named rfl sent⟩
    | second top =>
      obtain ⟨_, launching⟩ := calm _ (top ▸ List.mem_cons_self)
      cases launching
  · exact ⟨n, q, .next before answered sent⟩

theorem Tidy.succ (tidy : c.Tidy k) (undisturbed : c.Undisturbed) : c.Tidy (k + 1) := by
  by_cases silent : ∀ leader signal, c.outcome k ≠ .signalling leader signal
  · left
    rcases tidy with calm | ⟨_, _, _, _, _, _, _, _, answered, w, rest, top, signals, calm⟩
    · exact calm_step calm silent
    · rw [outcome, answered] at silent
      rw [thread, answered]
      exact calm_answer top signals calm silent
  · obtain ⟨leader, signal, sent⟩ : ∃ leader signal, c.outcome k = .signalling leader signal := by
      by_contra none
      exact silent fun leader signal sent => none ⟨leader, signal, sent⟩
    obtain ⟨n, q, signals⟩ := tidy.signals sent
    obtain ⟨answer, answered⟩ := undisturbed k leader signal sent
    have sends := c.sends sent
    refine Or.inr ⟨k, n, q, leader, signal, answer, rfl, signals, answered, ?_⟩
    generalize hm : c.move k = m at sends
    generalize c.thread (k + 1) = u at sends
    cases sends with
    | first =>
      refine ⟨_, _, rfl, by simp, ?_⟩
      rcases tidy with calm | ⟨_, _, _, _, _, _, _, _, answered, _⟩
      · exact calm
      · cases hm.symm.trans answered
    | second top =>
      refine ⟨_, _, rfl, by simp, ?_⟩
      rcases tidy with calm | ⟨_, _, _, _, _, _, _, _, _, _, _, top', _, calm⟩
      · exact calm.suffix (top ▸ List.suffix_cons _ _)
      · cases top.symm.trans top'
        exact calm

/-- In a run whose signals are not disturbed every signal is sent on behalf of a runner, and each
runner only ever gets what its state asks for. -/
theorem history_of_course {capacity buckets : UInt64} {maxRunId : UInt32} {home : String}
    {r : Registry} (created : Registry.create capacity maxRunId buckets = .ok r)
    (begins : c.start = .ofSupervisor ⟨home, r⟩) (undisturbed : c.Undisturbed) :
    (∀ k leader signal, c.outcome k = .signalling leader signal →
      ∃ n q, c.Signals n q k leader signal) ∧ ∀ n, c.SignalHistory n := by
  obtain ⟨d, h, empty, _⟩ := sound_of_create created begins
  constructor
  · have tidy : ∀ k, c.Tidy k := by
      intro k
      induction k with
      | zero =>
        left
        intro w hw
        rw [thread, begins] at hw
        cases hw
      | succ k ih => exact ih.succ undisturbed
    exact fun k leader signal sent => (tidy k).signals sent
  · exact fun n => c.history h (empty ▸ runner?_empty d n)

/-- A runner is stopped while another one is launched. It is asked to terminate twice: the first
SIGTERM is refused, and the second one is followed by SIGCONT. -/
def relayed : Course := ofMoves (.ofSupervisor ⟨"/home", .empty 2 4 2⟩) [
  .request (.start notes), .launched (.ok ⟨⟨7⟩, ⟨8⟩⟩), .request (.start notes),
  .request (.stop ⟨1⟩), .signalled (.ok ()), .launched (.ok ⟨⟨9⟩, ⟨9⟩⟩),
  .request (.terminate ⟨1⟩), .signalled (.error .outOfMemory),
  .request (.terminate ⟨1⟩), .signalled (.ok ()), .signalled (.ok ()), .notify ⟨7⟩ (.exited 0)]

theorem history_relayed :
    relayed.Delivers 0 (.terminate ⟨1⟩) 9 ⟨7⟩ .cont ∧
    (∀ k leader signal, relayed.outcome k = .signalling leader signal →
      ∃ n q, relayed.Signals n q k leader signal) ∧ ∀ n, relayed.SignalHistory n := by
  have undisturbed : relayed.Undisturbed := by
    intro k leader signal sent
    rcases Nat.lt_or_ge k 12 with lt | past
    · interval_cases k
      all_goals first | exact ⟨_, rfl⟩ | cases sent
    · have made : relayed.move k = .request .list := move_ofMoves past
      rw [outcome, made] at sent
      cases sent
  have first : relayed.Signals 0 (.terminate ⟨1⟩) 8 ⟨7⟩ .term :=
    .first (s := (relayed.registry 8).slot 0) rfl (.terminate ⟨1⟩) rfl rfl rfl
  exact ⟨⟨.next first rfl rfl, rfl⟩, history_of_course
    (show Registry.create 2 4 2 = .ok (.empty 2 4 2) from rfl) rfl undisturbed⟩

end Course
end AppSupervisor
