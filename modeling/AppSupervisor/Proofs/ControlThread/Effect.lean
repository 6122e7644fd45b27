import AppSupervisor.ControlThread
import AppSupervisor.Proofs.Registry.Operations

namespace AppSupervisor

inductive Request.Control : Request → RunId → Signal → RunState → Prop
  | stop (id : RunId) : Control (.stop id) id .stop .stopped
  | resume (id : RunId) : Control (.resume id) id .cont .running
  | terminate (id : RunId) : Control (.terminate id) id .term .terminating

theorem Request.Control.request_eq {q : Request} {id : RunId} {signal : Signal} {after : RunState}
    (control : q.Control id signal after) (s : Supervisor) :
    s.request q = (s, s.control id signal after) := by
  cases control <;> rfl

namespace Supervisor

inductive Controls (s : Supervisor) (id : RunId) (signal : Signal) (after : RunState) : Turn → Prop
  | unknown (none : s.registry.slotOfRunId? id = none) :
      Controls s id signal after (.done (.error (.notFound id)))
  | denied {i : Nat} (found : s.registry.slotOfRunId? id = some i)
      (quiet : (s.registry.slot i).state ≠ .running ∧ (s.registry.slot i).state ≠ .stopped) :
      Controls s id signal after (.done (.error (.denied id (s.registry.slot i).state)))
  | already {i : Nat} (found : s.registry.slotOfRunId? id = some i)
      (relayed : (s.registry.slot i).state = .running ∨ (s.registry.slot i).state = .stopped)
      (same : (s.registry.slot i).state = after) :
      Controls s id signal after (.done (.ok .accepted))
  | asks {i : Nat} (found : s.registry.slotOfRunId? id = some i)
      (relayed : (s.registry.slot i).state = .running ∨ (s.registry.slot i).state = .stopped)
      (differ : (s.registry.slot i).state ≠ after) :
      Controls s id signal after
        (.signal (s.registry.slot i).leader ⟨i, signal, (s.registry.slot i).state, after⟩)

theorem controls_control (s : Supervisor) (id : RunId) (signal : Signal) (after : RunState) :
    s.Controls id signal after (s.control id signal after) := by
  simp only [control]
  cases hs : s.registry.slotOfRunId? id with
  | none => exact .unknown hs
  | some i =>
    simp only
    by_cases quiet : (s.registry.slot i).state ≠ .running ∧ (s.registry.slot i).state ≠ .stopped
    · rw [if_pos quiet]
      exact .denied hs quiet
    · have relayed := quiet
      rw [not_and_or, not_not, not_not] at relayed
      rw [if_neg quiet]
      by_cases same : (s.registry.slot i).state = after
      · rw [if_pos same]
        exact .already hs relayed same
      · rw [if_neg same]
        exact .asks hs relayed same

end Supervisor

namespace ControlThread

abbrev registry (t : ControlThread) : Registry := t.supervisor.registry

def update (t : ControlThread) (r : Registry) (waiting : List Waiting) : ControlThread :=
  ⟨{ t.supervisor with registry := r }, waiting⟩

@[simp] theorem registry_update (t : ControlThread) (r : Registry) (waiting : List Waiting) :
    (t.update r waiting).registry = r := rfl

@[simp] theorem waiting_update (t : ControlThread) (r : Registry) (waiting : List Waiting) :
    (t.update r waiting).waiting = waiting := rfl

/-- What a move does to a thread. -/
inductive Effect (groupOf : Pid → Option Pid) (t : ControlThread) : Move → ControlThread → Prop
  | idle (m : Move) : Effect groupOf t m t
  | reclaimed {m : Move} (h : m = .request .collect ∨ ∃ manifest, m = .request (.start manifest)) :
      Effect groupOf t m (t.update t.registry.reclaim.1 t.waiting)
  | allocated {manifest : Manifest} {r : Registry} {p : Launching}
      (a : t.registry.reclaim.1.Allocates manifest r p.slot) (id : p.runId = (r.slot p.slot).runId) :
      Effect groupOf t (.request (.start manifest)) (t.update r (.launching p :: t.waiting))
  | asked {q : Request} {id : RunId} {p : Signalling} (control : q.Control id p.signal p.after)
      (found : t.registry.slotOfRunId? id = some p.slot)
      (before : (t.registry.slot p.slot).state = p.before)
      (signalled : p.before = .running ∨ p.before = .stopped) (differ : p.before ≠ p.after) :
      Effect groupOf t (.request q) (t.update t.registry (.signalling p :: t.waiting))
  | removed {id : RunId} {i : Nat} (found : t.registry.slotOfRunId? id = some i)
      (ended : (t.registry.slot i).state = .terminated) :
      Effect groupOf t (.request (.remove id)) (t.update (t.registry.release i) t.waiting)
  | ended {pid : Pid} {event : ChildEvent} {i : Nat}
      (found : t.registry.slotOfPid? groupOf pid = some i) (terminal : event.isTerminal) :
      Effect groupOf t (.notify pid event)
        (t.update ((t.registry.eraseGroup i).updateState i fun _ => .terminated) t.waiting)
  | reported {pid : Pid} {event : ChildEvent} {i : Nat} {s : RunState}
      (found : t.registry.slotOfPid? groupOf pid = some i) (running : s = .running ∨ s = .stopped) :
      Effect groupOf t (.notify pid event)
        (t.update (t.registry.updateState i (Registry.afterReport s)) t.waiting)
  | launched {children : Children} {p : Launching} {rest : List Waiting}
      (top : t.waiting = .launching p :: rest) :
      Effect groupOf t (.launched (.ok children))
        (t.update (t.registry.insertGroup p.slot children) rest)
  | failed {e : Error} {p : Launching} {rest : List Waiting}
      (top : t.waiting = .launching p :: rest) :
      Effect groupOf t (.launched (.error e)) (t.update (t.registry.release p.slot) rest)
  | unsignalled {e : Error} {p : Signalling} {rest : List Waiting}
      (top : t.waiting = .signalling p :: rest) :
      Effect groupOf t (.signalled (.error e)) (t.update t.registry rest)
  | signalled {p : Signalling} {rest waiting : List Waiting}
      (top : t.waiting = .signalling p :: rest)
      (left : waiting = rest ∨ waiting = .continuing :: rest) :
      Effect groupOf t (.signalled (.ok ()))
        (t.update (t.registry.transition p.slot p.before p.after) waiting)
  | continued {answer : Except Error Unit} {rest : List Waiting}
      (top : t.waiting = .continuing :: rest) :
      Effect groupOf t (.signalled answer) (t.update t.registry rest)

variable {groupOf : Pid → Option Pid} {t : ControlThread}

/-- How a start begins: where it leads and what comes of it. -/
inductive Starts (t : ControlThread) (manifest : Manifest) : ControlThread × Outcome → Prop
  | invalid {e : InvalidArgument} (h : LaunchDesc.ofManifest manifest t.supervisor.home = .error e) :
      Starts t manifest (t, .replied (.error (.invalid e)))
  | full {desc : LaunchDesc} {e : Error}
      (h : LaunchDesc.ofManifest manifest t.supervisor.home = .ok desc)
      (failed : t.registry.reclaim.1.allocate manifest = .error e) :
      Starts t manifest (t.update t.registry.reclaim.1 t.waiting, .replied (.error e))
  | launches {desc : LaunchDesc} {r : Registry} {p : Launching}
      (h : LaunchDesc.ofManifest manifest t.supervisor.home = .ok desc)
      (a : t.registry.reclaim.1.Allocates manifest r p.slot)
      (id : p.runId = (r.slot p.slot).runId) :
      Starts t manifest (t.update r (.launching p :: t.waiting), .launching desc)

theorem starts_step (manifest : Manifest) :
    t.Starts manifest (t.step groupOf (.request (.start manifest))) := by
  simp only [step, Supervisor.request, Supervisor.start]
  cases hd : LaunchDesc.ofManifest manifest t.supervisor.home with
  | error e => exact .invalid hd
  | ok desc =>
    cases hr : t.supervisor.registry.reclaim.1.allocate manifest with
    | error e => exact .full hd hr
    | ok result =>
      obtain ⟨r, i⟩ := result
      exact .launches (p := ⟨i, (r.slot i).runId, desc.tag⟩) hd (Registry.allocate_eq_ok hr) rfl

theorem effect_start (manifest : Manifest) :
    Effect groupOf t (.request (.start manifest)) (t.step groupOf (.request (.start manifest))).1 := by
  have starts : t.Starts manifest (t.step groupOf (.request (.start manifest))) :=
    starts_step manifest
  generalize t.step groupOf (.request (.start manifest)) = result at starts ⊢
  cases starts with
  | invalid => exact .idle _
  | full => exact .reclaimed (Or.inr ⟨manifest, rfl⟩)
  | launches _ a id => exact .allocated a id

/-- A control request may ask for its signal; it remembers the slot and the state that it found. -/
structure Asked (t : ControlThread) (id : RunId) (p : Signalling) : Prop where
  found : t.registry.slotOfRunId? id = some p.slot
  before : (t.registry.slot p.slot).state = p.before
  relayed : p.before = .running ∨ p.before = .stopped
  differ : p.before ≠ p.after

inductive Begins (t : ControlThread) (id : RunId) (signal : Signal) (after : RunState) :
    ControlThread × Outcome → Prop
  | unknown (none : t.registry.slotOfRunId? id = none) :
      Begins t id signal after (t, .replied (.error (.notFound id)))
  | denied {i : Nat} (found : t.registry.slotOfRunId? id = some i)
      (quiet : (t.registry.slot i).state ≠ .running ∧ (t.registry.slot i).state ≠ .stopped) :
      Begins t id signal after (t, .replied (.error (.denied id (t.registry.slot i).state)))
  | already {i : Nat} (found : t.registry.slotOfRunId? id = some i)
      (relayed : (t.registry.slot i).state = .running ∨ (t.registry.slot i).state = .stopped)
      (same : (t.registry.slot i).state = after) :
      Begins t id signal after (t, .replied (.ok .accepted))
  | asks {p : Signalling} (asked : t.Asked id p) (hs : p.signal = signal) (ha : p.after = after) :
      Begins t id signal after (t.update t.registry (.signalling p :: t.waiting),
        .signalling (t.registry.slot p.slot).leader signal)

theorem begins_step {q : Request} {id : RunId} {signal : Signal} {after : RunState}
    (control : q.Control id signal after) :
    t.Begins id signal after (t.step groupOf (.request q)) := by
  have controls := t.supervisor.controls_control id signal after
  simp only [step, control.request_eq]
  generalize t.supervisor.control id signal after = turn at controls ⊢
  cases controls with
  | unknown none => exact .unknown none
  | denied found quiet => exact .denied found quiet
  | already found relayed same => exact .already found relayed same
  | @asks i found relayed differ =>
    exact .asks (p := ⟨i, signal, (t.supervisor.registry.slot i).state, after⟩)
      ⟨found, rfl, relayed, differ⟩ rfl rfl

theorem effect_control {q : Request} {id : RunId} {signal : Signal} {after : RunState}
    (control : q.Control id signal after) :
    Effect groupOf t (.request q) (t.step groupOf (.request q)).1 := by
  have begins : t.Begins id signal after (t.step groupOf (.request q)) := begins_step control
  generalize t.step groupOf (.request q) = result at begins ⊢
  cases begins with
  | unknown | denied | already => exact .idle _
  | asks asked hs ha =>
    subst hs ha
    exact .asked control asked.found asked.before asked.relayed asked.differ

theorem effect_remove (id : RunId) :
    Effect groupOf t (.request (.remove id)) (t.step groupOf (.request (.remove id))).1 := by
  simp only [step, Supervisor.request, Supervisor.remove]
  cases hs : t.supervisor.registry.slotOfRunId? id with
  | none => exact .idle _
  | some i =>
    simp only
    by_cases ended : (t.supervisor.registry.slot i).state = .terminated
    · rw [if_pos ended]
      exact .removed hs ended
    · rw [if_neg ended]
      exact .idle _

theorem effect_notify (pid : Pid) (event : ChildEvent) :
    Effect groupOf t (.notify pid event) (t.step groupOf (.notify pid event)).1 := by
  simp only [step, Supervisor.notify, Registry.notify]
  cases hs : t.supervisor.registry.slotOfPid? groupOf pid with
  | none => exact .idle _
  | some i =>
    simp only
    by_cases terminal : event.isTerminal
    · rw [if_pos terminal]
      exact .ended hs terminal
    · rw [if_neg terminal]
      by_cases stopped : event = .stopped
      · rw [if_pos stopped]
        exact .reported hs (Or.inr rfl)
      · rw [if_neg stopped]
        exact .reported hs (Or.inl rfl)

section

variable {p : Launching} {rest : List Waiting}

theorem step_launched (top : t.waiting = .launching p :: rest) (children : Children) :
    t.step groupOf (.launched (.ok children)) =
      (t.update (t.registry.insertGroup p.slot children) rest,
        .replied (.ok (.started p.runId))) := by
  simp only [step, top, Supervisor.launched]
  rfl

theorem step_unlaunched (top : t.waiting = .launching p :: rest) (e : Error) :
    t.step groupOf (.launched (.error e)) =
      (t.update (t.registry.release p.slot) rest,
        .replied (.error (.launchFailed p.app e))) := by
  simp only [step, top, Supervisor.launched]
  rfl

end

theorem effect_launched (answer : Except Error Children) :
    Effect groupOf t (.launched answer) (t.step groupOf (.launched answer)).1 := by
  cases hw : t.waiting with
  | nil =>
    simp only [step, hw]
    exact .idle _
  | cons top rest =>
    cases top with
    | launching p =>
      cases answer with
      | ok children =>
        rw [step_launched hw]
        exact .launched hw
      | error e =>
        rw [step_unlaunched hw]
        exact .failed hw
    | signalling p =>
      simp only [step, hw]
      exact .idle _
    | continuing =>
      simp only [step, hw]
      exact .idle _

section

variable {p : Signalling} {rest : List Waiting}

theorem step_refused (top : t.waiting = .signalling p :: rest) (e : Error) :
    t.step groupOf (.signalled (.error e)) = (t.update t.registry rest, .replied (.error e)) := by
  simp only [step, top, Supervisor.signalled]
  rfl

theorem step_sent (top : t.waiting = .signalling p :: rest)
    (once : ¬(p.before = .stopped ∧ p.signal = .term)) :
    t.step groupOf (.signalled (.ok ())) =
      (t.update (t.registry.transition p.slot p.before p.after) rest,
        .replied (.ok .accepted)) := by
  simp only [step, top, Supervisor.signalled, if_neg once]
  rfl

theorem step_sent_twice (top : t.waiting = .signalling p :: rest)
    (twice : p.before = .stopped ∧ p.signal = .term) :
    t.step groupOf (.signalled (.ok ())) =
      (t.update (t.registry.transition p.slot p.before p.after) (.continuing :: rest),
        .signalling (t.registry.slot p.slot).leader .cont) := by
  have leader : ((t.registry.transition p.slot p.before p.after).slot p.slot).leader =
      (t.registry.slot p.slot).leader := by
    rw [Registry.slot_transition]
  rw [← leader]
  simp only [step, top, Supervisor.signalled, if_pos twice]
  rfl

theorem step_continued (top : t.waiting = .continuing :: rest) (answer : Except Error Unit) :
    t.step groupOf (.signalled answer) = (t.update t.registry rest, .replied (.ok .accepted)) := by
  simp only [step, top]
  rfl

end

theorem effect_signalled (answer : Except Error Unit) :
    Effect groupOf t (.signalled answer) (t.step groupOf (.signalled answer)).1 := by
  cases hw : t.waiting with
  | nil =>
    simp only [step, hw]
    exact .idle _
  | cons top rest =>
    cases top with
    | launching p =>
      simp only [step, hw]
      exact .idle _
    | signalling p =>
      cases answer with
      | ok _ =>
        by_cases twice : p.before = .stopped ∧ p.signal = .term
        · rw [step_sent_twice hw twice]
          exact .signalled hw (Or.inr rfl)
        · rw [step_sent hw twice]
          exact .signalled hw (Or.inl rfl)
      | error e =>
        rw [step_refused hw]
        exact .unsignalled hw
    | continuing =>
      rw [step_continued hw]
      exact .continued hw

theorem effect_step (groupOf : Pid → Option Pid) (t : ControlThread) (m : Move) :
    Effect groupOf t m (t.step groupOf m).1 := by
  cases m with
  | request q =>
    cases q with
    | start manifest => exact effect_start manifest
    | stop id => exact effect_control (.stop id)
    | resume id => exact effect_control (.resume id)
    | terminate id => exact effect_control (.terminate id)
    | remove id => exact effect_remove id
    | state id => exact .idle _
    | list => exact .idle _
    | collect => exact .reclaimed (Or.inl rfl)
  | notify pid event => exact effect_notify pid event
  | launched answer => exact effect_launched answer
  | signalled answer => exact effect_signalled answer

theorem starts_of_launching {m : Move} {desc : LaunchDesc}
    (h : (t.step groupOf m).2 = .launching desc) : ∃ manifest, m = .request (.start manifest) := by
  have uncontrolled : ∀ {q : Request} {id : RunId} {signal : Signal} {after : RunState},
      q.Control id signal after → (t.step groupOf (.request q)).2 ≠ .launching desc := by
    intro q id signal after control
    have begins : t.Begins id signal after (t.step groupOf (.request q)) := begins_step control
    generalize t.step groupOf (.request q) = result at begins ⊢
    cases begins <;> simp
  cases m with
  | request q =>
    cases q with
    | start manifest => exact ⟨manifest, rfl⟩
    | stop id => exact absurd h (uncontrolled (.stop id))
    | resume id => exact absurd h (uncontrolled (.resume id))
    | terminate id => exact absurd h (uncontrolled (.terminate id))
    | _ => cases h
  | notify => cases h
  | launched answer =>
    simp only [step] at h
    split at h <;> cases h
  | signalled answer =>
    simp only [step] at h
    split at h
    next => split at h <;> cases h
    next => cases h
    next => cases h

/-- Threads that moves lead to, one after the other. The system may give another answer at each
move, when it is asked for the group of a process. -/
inductive Reaches : ControlThread → ControlThread → Prop
  | refl (t : ControlThread) : Reaches t t
  | step {t u : ControlThread} (h : Reaches t u) (groupOf : Pid → Option Pid) (m : Move) :
      Reaches t (u.step groupOf m).1

theorem Reaches.trans {t u v : ControlThread} (h : Reaches t u) (h' : Reaches u v) :
    Reaches t v := by
  induction h' with
  | refl => exact h
  | step _ groupOf m ih => exact ih.step groupOf m

theorem reaches_run (groupOf : Pid → Option Pid) (t : ControlThread) (moves : List Move) :
    Reaches t (t.run groupOf moves) := by
  induction moves generalizing t with
  | nil => exact .refl t
  | cons m moves ih => exact ((Reaches.refl t).step groupOf m).trans (ih _)

def notes : Manifest :=
  ⟨.object [("path", .string "/opt/notes"), ("id", .string "notes"), ("content", .string "main"),
    ("type", .string "native"), ("public", .object [("id", .string "notes"),
    ("name", .string "Notes"), ("width", .number (.int 8)), ("height", .number (.int 6))])],
    "notes"⟩

/-- Three starts, each inside the launch of the one before. The inner two get the same leader, and
the outer one fails. The leader ends while it is asked to terminate, and its slot is used again
before that request is served. -/
def nested : List Move := [
  .request (.start notes), .request (.start notes), .request (.start notes),
  .launched (.ok ⟨⟨-7⟩, ⟨-7⟩⟩), .launched (.ok ⟨⟨-7⟩, ⟨8⟩⟩), .launched (.error .outOfMemory),
  .request (.terminate ⟨2⟩), .notify ⟨-7⟩ (.exited 0), .request (.start notes), .signalled (.ok ())]

def nestedTo (count : Nat) : ControlThread :=
  (ofSupervisor ⟨"/home", .empty 3 4 2⟩).run (fun _ => none) (nested.take count)

end ControlThread
end AppSupervisor
