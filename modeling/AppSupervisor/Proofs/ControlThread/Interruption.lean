import AppSupervisor.Proofs.ControlThread.Calls

namespace AppSupervisor

/-- What a stop or resume of a runner leaves, when status changes were handled in between. -/
structure Registry.Settled (r : Registry) (reports : List Report) (r' : Registry) (s : Runner)
    (after : RunState) : Prop where
  named : (r'.lookupRunId s.runId).map Runner.serial = some s.serial
  state : r'.state? s.serial = some after ∨ r'.state? s.serial = some .terminated
  ended : r'.state? s.serial = some .terminated ↔ r.Ends s.serial reports
  index : s.serial ∈ r'.indexed ↔ ¬r.Ends s.serial reports
  others : ∀ n ≠ s.serial, r'.runner? n = (r.notifyAll reports).runner? n

/-- Status changes have taken a runner from Running to Stopped or back. -/
def Registry.Overtakes (r : Registry) (reports : List Report) (s : Runner) : Prop :=
  (r.notifyAll reports).state? s.serial ≠ some s.state ∧
    (r.notifyAll reports).state? s.serial ≠ some .terminated

namespace ControlThread

/-- The runner is on its way out: clients are not told of it, and may not control it. -/
structure Hides (t : ControlThread) (id : RunId) (n : Nat) : Prop where
  runner : ∃ s, t.registry.lookupRunId id = some s ∧ s.serial = n ∧
    (s.state = .terminating ∨ s.state = .terminated)
  state : t.supervisor.state id = .error (.notFound id)
  list : ∀ record ∈ t.supervisor.list, record.runId ≠ id
  denied : ∀ q signal after, q.Control id signal after → ∀ groupOf, ∃ state, state.isGone ∧
    t.step groupOf (.request q) = (t, .replied (.error (.denied id state)))

variable {d : Measures} {t u : ControlThread} {q : Request} {id : RunId} {signal signal' : Signal}
  {after : RunState} {p : Signalling} {live grouped : List Nat} {leader : Pid}
  {calls : List (List Report)}

theorem Asked.valid (asked : t.Asked id p) (control : q.Control id signal after)
    (hs : p.signal = signal) (ha : p.after = after) : p.Valid := by
  subst hs ha
  exact valid_of_control control asked.relayed asked.differ

theorem Asked.inUse (asked : t.Asked id p) (h : t.Sound d live grouped) :
    p.slot ∈ live ∧ (t.registry.slot p.slot).runId = id :=
  h.registry.layout.slotOfRunId?_eq_some.mp asked.found

theorem Asked.named (asked : t.Asked id p) (h : t.Sound d live grouped) :
    t.registry.lookupRunId id = some (t.registry.slot p.slot) := by
  obtain ⟨hi, rfl⟩ := asked.inUse h
  exact h.registry.layout.lookupRunId_slot hi

section

variable (asked : t.Asked id p) (h : t.Sound d live grouped) (reports : List Report)

include asked h

theorem Asked.relayed_notifyAll :
    ((t.registry.notifyAll reports).slot p.slot).state = .running ∨
      ((t.registry.notifyAll reports).slot p.slot).state = .stopped ∨
      ((t.registry.notifyAll reports).slot p.slot).state = .terminated := by
  obtain ⟨hi, _⟩ := asked.inUse h
  have found := h.registry.layout.state?_slot hi
  have relayed := asked.before ▸ asked.relayed
  obtain ⟨s, hs, known⟩ := h.registry.notifyAll_relayed found relayed reports
  rw [h.registry.state?_notifyAll hi reports] at hs
  exact Option.some.inj hs ▸ known

theorem Asked.terminated_notifyAll_iff :
    ((t.registry.notifyAll reports).slot p.slot).state = .terminated ↔
      t.registry.Ends (t.registry.slot p.slot).serial reports := by
  obtain ⟨hi, _⟩ := asked.inUse h
  have unended : (t.registry.slot p.slot).state ≠ .terminated := by
    rw [asked.before]
    rcases asked.relayed with he | he <;> simp [he]
  have ends := h.registry.notifyAll_terminated_iff reports (n := (t.registry.slot p.slot).serial)
  rw [h.registry.state?_notifyAll hi reports, h.registry.layout.state?_slot hi] at ends
  simpa [unended] using ends

theorem Asked.state?_written :
    (t.registry.written p reports).state? (t.registry.slot p.slot).serial =
        some (if ((t.registry.notifyAll reports).slot p.slot).state = p.before then p.after
          else ((t.registry.notifyAll reports).slot p.slot).state) := by
  obtain ⟨_, later⟩ := h.registry.notifyAll reports
  rw [← h.registry.serial_notifyAll reports]
  exact later.layout.state?_transition (asked.inUse h).1 p.before p.after

end

theorem relay_wins {s before after : RunState}
    (known : s = .running ∨ s = .stopped ∨ s = .terminated)
    (relayed : before = .running ∨ before = .stopped) (relays : after = .running ∨ after = .stopped)
    (differ : before ≠ after) :
    (if s = before then after else s) = if s = .terminated then .terminated else after := by
  rcases known with rfl | rfl | rfl <;> rcases relayed with rfl | rfl <;>
    rcases relays with rfl | rfl <;> simp_all

theorem sound_written (h : t.Sound d live grouped) (valid : p.Valid) (reports : List Report) :
    ∃ grouped', (t.registry.written p reports).Sound d live grouped'
      (t.waiting.filterMap Waiting.startingSlot?) := by
  obtain ⟨grouped', later⟩ := h.registry.notifyAll reports
  exact ⟨grouped', transition_sound valid later⟩

theorem slot_written (h : t.Sound d live grouped) (p : Signalling) (reports : List Report) :
    (t.registry.written p reports).slot p.slot =
      { t.registry.slot p.slot with
        state := ((t.registry.written p reports).slot p.slot).state } := by
  have written := Registry.slot_transition (t.registry.notifyAll reports) p.slot p.slot p.before
    p.after
  rw [h.registry.slot_notifyAll reports] at written
  exact written

section

variable (asked : t.Asked id p) (h : t.Sound d live grouped) (valid : p.Valid)
  (reports : List Report)

include asked h valid

theorem Asked.ended_written :
    (t.registry.written p reports).state? (t.registry.slot p.slot).serial = some .terminated ↔
      t.registry.Ends (t.registry.slot p.slot).serial reports := by
  rw [asked.state?_written h reports, ← asked.terminated_notifyAll_iff h reports]
  split
  next unmoved =>
    rw [unmoved]
    simp [RunState.ne_terminated valid.before, RunState.ne_terminated valid.after]
  next => simp

theorem Asked.indexed_written :
    (t.registry.slot p.slot).serial ∈ (t.registry.written p reports).indexed ↔
      ¬t.registry.Ends (t.registry.slot p.slot).serial reports := by
  obtain ⟨_, sound⟩ := sound_written h valid reports
  rw [sound.mem_indexed, ← asked.ended_written h valid reports, asked.state?_written h reports]
  simp only [Option.some.injEq, exists_eq_left']
  split
  next => simp [valid.after, RunState.ne_terminated valid.after]
  next =>
    rcases asked.relayed_notifyAll h reports with hs | hs | hs <;> simp [hs, RunState.hasProcess]

theorem Asked.settled (relays : p.after = .running ∨ p.after = .stopped) :
    t.registry.Settled reports (t.registry.written p reports) (t.registry.slot p.slot)
      p.after := by
  obtain ⟨hi, _⟩ := asked.inUse h
  obtain ⟨_, later⟩ := h.registry.notifyAll reports
  obtain ⟨_, sound⟩ := sound_written h valid reports
  have known := asked.relayed_notifyAll h reports
  refine ⟨?_, ?_, asked.ended_written h valid reports, asked.indexed_written h valid reports,
    fun n hne => ?_⟩
  · have found := sound.layout.lookupRunId_slot hi
    rw [slot_written h p reports] at found
    rw [found]
    rfl
  · rw [asked.state?_written h reports, relay_wins known asked.relayed relays asked.differ]
    split
    next => exact Or.inr rfl
    next => exact Or.inl rfl
  · have serial := h.registry.serial_notifyAll reports p.slot
    exact later.layout.runner?_transition_of_ne hi (serial ▸ hne) p.before p.after

end

theorem settled_already {i : Nat} (h : t.Sound d live grouped) (hi : i ∈ live)
    (relayed : (t.registry.slot i).state = .running ∨ (t.registry.slot i).state = .stopped) :
    t.registry.Settled [] t.registry (t.registry.slot i) (t.registry.slot i).state := by
  have layout := h.registry.layout
  have state := layout.state?_slot hi
  have process : (t.registry.slot i).state.hasProcess := by
    rcases relayed with he | he <;> rw [he] <;> rfl
  refine ⟨?_, Or.inl state, ?_, ?_, fun _ _ => rfl⟩
  · rw [layout.lookupRunId_slot hi, Option.map_some]
  · rw [state]
    simp [Registry.Ends, RunState.ne_terminated process]
  · simp [Registry.Ends, h.registry.mem_indexed, state, process]

theorem hides_of_gone {i : Nat} (h : u.registry.Layout d live grouped) (hi : i ∈ live)
    (gone : (u.registry.slot i).state.isGone) :
    u.Hides (u.registry.slot i).runId (u.registry.slot i).serial := by
  have found := h.lookupRunId_slot hi
  have slot := h.slotOfRunId?_eq_some.mpr ⟨hi, rfl⟩
  refine ⟨⟨_, found, rfl, ?_⟩, ?_, fun record listed same => ?_,
    fun q signal after control groupOf => ?_⟩
  · cases hs : (u.registry.slot i).state <;> simp_all [RunState.isGone]
  · unfold Supervisor.state
    rw [found, Option.filter_some_neg (by simp [gone])]
  · obtain ⟨x, hx, rfl⟩ := List.mem_map.mp listed
    obtain ⟨hm, shown⟩ := List.mem_filter.mp hx
    obtain ⟨j, hj, rfl⟩ := h.mem_toList.mp hm
    obtain rfl := h.runId_inj j hj i hi same
    simp [gone] at shown
  · have unrelayed : ¬((u.registry.slot i).state = .running ∨
        (u.registry.slot i).state = .stopped) := by
      rintro (he | he) <;> simp [he, RunState.isGone] at gone
    have begins : u.Begins _ signal after (u.step groupOf (.request q)) := begins_step control
    generalize u.step groupOf (.request q) = result at begins ⊢
    cases begins with
    | unknown none => simp [slot] at none
    | denied other =>
      obtain rfl := Option.some.inj (slot.symm.trans other)
      exact ⟨_, gone, rfl⟩
    | already other relayed =>
      obtain rfl := Option.some.inj (slot.symm.trans other)
      exact absurd relayed unrelayed
    | @asks p asked =>
      obtain rfl := Option.some.inj (slot.symm.trans asked.found)
      exact absurd (asked.before ▸ asked.relayed) unrelayed

section

variable (asked : t.Asked id p) (h : t.Sound d live grouped)

include asked h

theorem Asked.hides (valid : p.Valid) (last : p.after = .terminating) {inside : List Report}
    (kept : ¬t.registry.Overtakes inside (t.registry.slot p.slot)) (more : List Report) :
    (t.update ((t.registry.written p inside).notifyAll more) t.waiting).Hides id
      (t.registry.slot p.slot).serial := by
  obtain ⟨hi, rfl⟩ := asked.inUse h
  obtain ⟨_, sound⟩ := sound_written h valid inside
  obtain ⟨_, later⟩ := sound.notifyAll more
  have gone : (if ((t.registry.notifyAll inside).slot p.slot).state = p.before then p.after
      else ((t.registry.notifyAll inside).slot p.slot).state).isGone := by
    rw [Registry.Overtakes, h.registry.state?_notifyAll hi inside, asked.before, not_and_or, not_not,
      not_not, Option.some.injEq, Option.some.injEq] at kept
    split
    next => rw [last]; rfl
    next moved => rw [kept.resolve_left moved]; rfl
  obtain ⟨s, hs, left⟩ := sound.notifyAll_keeps (Q := fun s => s.isGone)
    (fun _ _ => Registry.isGone_afterEvent) (asked.state?_written h inside) gone more
  have slot := sound.slot_notifyAll more p.slot
  rw [slot_written h p inside] at slot
  generalize (t.registry.written p inside).notifyAll more = v at later hs slot ⊢
  have runId : (v.slot p.slot).runId = (t.registry.slot p.slot).runId := by rw [slot]
  have serial : (v.slot p.slot).serial = (t.registry.slot p.slot).serial := by rw [slot]
  rw [← serial, later.layout.state?_slot hi, Option.some.injEq] at hs
  rw [← runId, ← serial]
  exact hides_of_gone (u := t.update v t.waiting) later.layout hi (hs ▸ left)

theorem Asked.overtaken {inside : List Report}
    (overtakes : t.registry.Overtakes inside (t.registry.slot p.slot)) :
    t.registry.written p inside = t.registry.notifyAll inside := by
  obtain ⟨hi, _⟩ := asked.inUse h
  have moved := overtakes.1
  rw [h.registry.state?_notifyAll hi inside, asked.before] at moved
  exact Registry.transition_eq_self fun same => moved (congrArg some same)

end

variable {capacity buckets : UInt64} {maxRunId : UInt32} {home : String} {r : Registry}
  {result : Except Error Reply}

/-- An accepted stop or resume holds whatever was reported inside its call, unless the runner ended
there. For the other runners it is as if there had only been the reports. -/
theorem settled_of_serves (created : Registry.create capacity maxRunId buckets = .ok r)
    (h : Reaches (ofSupervisor ⟨home, r⟩) t) (control : q.Control id signal after)
    (relays : signal ≠ .term) (served : t.Serves q calls u result) :
    (result = .ok .accepted → ∃ s, t.registry.lookupRunId id = some s ∧
      t.registry.Settled calls.flatten u.registry s after) ∧
    ((∃ e, result = .error e) → u.registry = t.registry.notifyAll calls.flatten) := by
  obtain ⟨d, live, grouped, sound, _⟩ := sound_of_create created h
  have between : after = .running ∨ after = .stopped := by
    cases control with
    | stop => exact Or.inr rfl
    | resume => exact Or.inl rfl
    | terminate => exact absurd rfl relays
  cases served.closes control with
  | refused => exact ⟨(nomatch ·), fun _ => rfl⟩
  | already found relayed same =>
    obtain ⟨hi, rfl⟩ := sound.registry.layout.slotOfRunId?_eq_some.mp found
    refine ⟨fun _ => ⟨_, sound.registry.layout.lookupRunId_slot hi, ?_⟩, fun ⟨_, he⟩ => nomatch he⟩
    exact same ▸ settled_already sound hi relayed
  | once asked hs ha _ inside =>
    have valid := asked.valid control hs ha
    subst hs ha
    refine ⟨fun _ => ⟨_, asked.named sound, ?_⟩, fun ⟨_, he⟩ => nomatch he⟩
    rw [List.flatten_singleton]
    exact asked.settled sound valid inside between
  | twice asked hs _ twice => exact absurd (hs ▸ twice.2) relays

def onLeader (event : ChildEvent) : Report := ⟨fun _ => none, ⟨-7⟩, event⟩

theorem settled_contested : ∃ u, (nestedTo 4).Serves (.stop ⟨3⟩)
      [[onLeader .stopped, onLeader .continued]] u (.ok .accepted) ∧
    u.registry.state? 2 = some .stopped ∧
    ∃ s, (nestedTo 4).registry.lookupRunId ⟨3⟩ = some s ∧
      (nestedTo 4).registry.Settled [onLeader .stopped, onLeader .continued] u.registry s
        .stopped := by
  have call := @Calls.first (nestedTo 4) (.stop ⟨3⟩) (fun _ => none) ⟨-7⟩ .stop rfl
  have served := @Serves.answered _ _ _ _ _ _ call [onLeader .stopped, onLeader .continued]
    (fun _ => none) (.ok ()) (.ok .accepted) rfl
  have settled := settled_of_serves (show Registry.create 3 4 2 = .ok (.empty 3 4 2) from rfl)
    (reaches_run _ _ _) (.stop ⟨3⟩) (by decide) served
  exact ⟨_, served, by decide +kernel, settled.1 rfl⟩

/-- A terminate that is accepted finds its runner Running or Stopped. It takes effect unless reports
inside its first call moved the runner to the other of the two; then the registry is what the reports
make of it. -/
theorem terminate_of_serves (created : Registry.create capacity maxRunId buckets = .ok r)
    (h : Reaches (ofSupervisor ⟨home, r⟩) t)
    (served : t.Serves (.terminate id) calls u (.ok .accepted)) :
    ∃ s inside later, calls = inside :: later ∧ t.registry.lookupRunId id = some s ∧
      (s.state = .running ∨ s.state = .stopped) ∧
      (¬t.registry.Overtakes inside s → u.Hides id s.serial) ∧
      (t.registry.Overtakes inside s → u.registry = t.registry.notifyAll calls.flatten) := by
  obtain ⟨d, live, grouped, sound, _⟩ := sound_of_create created h
  have relayed : ∀ {p : Signalling}, t.Asked id p →
      (t.registry.slot p.slot).state = .running ∨ (t.registry.slot p.slot).state = .stopped :=
    fun asked => asked.before ▸ asked.relayed
  cases served.closes (.terminate id) with
  | already found relayed same => rcases relayed with he | he <;> simp [he] at same
  | @once p asked hs ha _ inside =>
    have valid := asked.valid (.terminate id) hs ha
    refine ⟨_, inside, [], rfl, asked.named sound, relayed asked,
      fun kept => asked.hides sound valid ha kept [], fun overtakes => ?_⟩
    rw [List.flatten_singleton]
    exact asked.overtaken sound overtakes
  | @twice p asked hs ha _ inside more =>
    have valid := asked.valid (.terminate id) hs ha
    refine ⟨_, inside, [more], rfl, asked.named sound, relayed asked,
      fun kept => asked.hides sound valid ha kept more, fun overtakes => ?_⟩
    rw [List.flatten_cons, List.flatten_singleton, Registry.notifyAll_append,
      registry_update, asked.overtaken sound overtakes]

theorem terminate_contested : ∃ u, (nestedTo 4).Serves (.terminate ⟨3⟩)
      [[onLeader .stopped, onLeader .continued]] u (.ok .accepted) ∧ u.Hides ⟨3⟩ 2 := by
  have call := @Calls.first (nestedTo 4) (.terminate ⟨3⟩) (fun _ => none) ⟨-7⟩ .term rfl
  have served := @Serves.answered _ _ _ _ _ _ call [onLeader .stopped, onLeader .continued]
    (fun _ => none) (.ok ()) (.ok .accepted) rfl
  obtain ⟨s, _, _, same, found, _, hides, _⟩ := terminate_of_serves
    (show Registry.create 3 4 2 = .ok (.empty 3 4 2) from rfl) (reaches_run _ _ _) served
  cases same
  obtain rfl : (nestedTo 4).registry.slot 2 = s := Option.some.inj (.trans (by rfl) found)
  exact ⟨_, served, hides (by unfold Registry.Overtakes; decide +kernel)⟩

theorem terminate_overtaken :
    Registry.create 3 4 2 = .ok (.empty 3 4 2) ∧
    Reaches (ofSupervisor ⟨"/home", .empty 3 4 2⟩) (nestedTo 4) ∧
    ∃ u, (nestedTo 4).Serves (.terminate ⟨3⟩) [[onLeader .stopped]] u (.ok .accepted) ∧
      u.registry.state? 2 = some .stopped ∧
      u.supervisor.state ⟨3⟩ = .ok ⟨⟨3⟩, .stopped, "notes"⟩ := by
  have call := @Calls.first (nestedTo 4) (.terminate ⟨3⟩) (fun _ => none) ⟨-7⟩ .term rfl
  have served := @Serves.answered _ _ _ _ _ _ call [onLeader .stopped]
    (fun _ => none) (.ok ()) (.ok .accepted) rfl
  exact ⟨rfl, reaches_run _ _ _, _, served, by decide +kernel, rfl⟩

/-- The first signal goes to a runner that has not ended. So does the second, unless a report inside
the first call ended the runner: nothing is checked again in between. -/
theorem leader_of_calls (created : Registry.create capacity maxRunId buckets = .ok r)
    (h : Reaches (ofSupervisor ⟨home, r⟩) t) (control : q.Control id signal after)
    (call : t.Calls q calls u leader signal') :
    ∃ s, t.registry.lookupRunId id = some s ∧ leader = s.leader ∧
      (s.serial ∈ u.registry.indexed ↔ ¬t.registry.Ends s.serial calls.flatten) ∧
      (u.registry.state? s.serial = some .terminated ↔
        t.registry.Ends s.serial calls.flatten) := by
  obtain ⟨d, live, grouped, sound, _⟩ := sound_of_create created h
  cases call.signals control with
  | @first p asked hs ha =>
    have settled := settled_already sound (asked.inUse sound).1 (asked.before ▸ asked.relayed)
    exact ⟨_, asked.named sound, rfl, settled.index, settled.ended⟩
  | @second p asked hs ha twice inside =>
    have valid := asked.valid control hs ha
    subst hs ha
    refine ⟨_, asked.named sound, ?_, ?_⟩
    · rw [sound.registry.slot_notifyAll]
    · rw [List.flatten_singleton]
      exact ⟨asked.indexed_written sound valid inside, asked.ended_written sound valid inside⟩

def halted : ControlThread := (nestedTo 4).run (fun _ => none) [.notify ⟨-7⟩ .stopped]

theorem leader_continued : ∃ u, halted.Calls (.terminate ⟨3⟩) [[onLeader .continued]] u ⟨-7⟩ .cont ∧
    2 ∈ u.registry.indexed ∧
    ∃ s, halted.registry.lookupRunId ⟨3⟩ = some s ∧ ⟨-7⟩ = s.leader ∧
      (s.serial ∈ u.registry.indexed ↔
        ¬halted.registry.Ends s.serial [onLeader .continued]) ∧
      (u.registry.state? s.serial = some .terminated ↔
        halted.registry.Ends s.serial [onLeader .continued]) := by
  have first := @Calls.first halted (.terminate ⟨3⟩) (fun _ => none) ⟨-7⟩ .term rfl
  have second := @Calls.next _ _ _ _ _ _ _ _ first [onLeader .continued] (fun _ => none) (.ok ())
    (show _ = Outcome.signalling ⟨-7⟩ .cont from rfl)
  have leader := leader_of_calls (show Registry.create 3 4 2 = .ok (.empty 3 4 2) from rfl)
    ((reaches_run _ _ _).trans (reaches_run _ _ _)) (.terminate ⟨3⟩) second
  exact ⟨_, second, by decide +kernel, leader⟩

theorem leader_ended :
    Registry.create 3 4 2 = .ok (.empty 3 4 2) ∧
    Reaches (ofSupervisor ⟨"/home", .empty 3 4 2⟩) halted ∧
    ∃ u, halted.Calls (.terminate ⟨3⟩) [[onLeader (.exited 0)]] u ⟨-7⟩ .cont ∧
      u.registry.state? 2 = some .terminated ∧ u.registry.indexed = [] := by
  have first := @Calls.first halted (.terminate ⟨3⟩) (fun _ => none) ⟨-7⟩ .term rfl
  have second := @Calls.next _ _ _ _ _ _ _ _ first [onLeader (.exited 0)] (fun _ => none) (.ok ())
    (show _ = Outcome.signalling ⟨-7⟩ .cont from rfl)
  exact ⟨rfl, (reaches_run _ _ _).trans (reaches_run _ _ _), _, second, by decide +kernel,
    by decide +kernel⟩

end ControlThread
end AppSupervisor
