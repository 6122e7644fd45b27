import AppSupervisor.Proofs.ControlThread.Soundness
import AppSupervisor.Proofs.Registry.Notification

namespace AppSupervisor

/-- The registry when the signal of a control request was sent and status changes came first. -/
def Registry.written (r : Registry) (p : Signalling) (inside : List Report) : Registry :=
  (r.notifyAll inside).transition p.slot p.before p.after

namespace ControlThread

def notifyAll (t : ControlThread) (reports : List Report) : ControlThread :=
  reports.foldl (fun t s => (t.step s.groupOf (.notify s.pid s.event)).1) t

/-- A request calls the launcher to send a signal. For each of its earlier calls it is listed which
status changes were handled inside. -/
inductive Calls (t : ControlThread) (q : Request) :
    List (List Report) → ControlThread → Pid → Signal → Prop
  | first {groupOf : Pid → Option Pid} {leader : Pid} {signal : Signal}
      (h : (t.step groupOf (.request q)).2 = .signalling leader signal) :
      Calls t q [] (t.step groupOf (.request q)).1 leader signal
  | next {calls : List (List Report)} {u : ControlThread} {leader leader' : Pid}
      {signal signal' : Signal} (call : Calls t q calls u leader signal) (inside : List Report)
      {groupOf : Pid → Option Pid} {answer : Except Error Unit}
      (h : ((u.notifyAll inside).step groupOf (.signalled answer)).2 =
        .signalling leader' signal') :
      Calls t q (calls ++ [inside]) ((u.notifyAll inside).step groupOf (.signalled answer)).1
        leader' signal'

/-- A request is replied to. For each of its calls it is listed which status changes were handled
inside. -/
inductive Serves (t : ControlThread) (q : Request) :
    List (List Report) → ControlThread → Except Error Reply → Prop
  | atOnce {groupOf : Pid → Option Pid} {result : Except Error Reply}
      (h : (t.step groupOf (.request q)).2 = .replied result) :
      Serves t q [] (t.step groupOf (.request q)).1 result
  | answered {calls : List (List Report)} {u : ControlThread} {leader : Pid} {signal : Signal}
      (call : Calls t q calls u leader signal) (inside : List Report)
      {groupOf : Pid → Option Pid} {answer : Except Error Unit} {result : Except Error Reply}
      (h : ((u.notifyAll inside).step groupOf (.signalled answer)).2 = .replied result) :
      Serves t q (calls ++ [inside]) ((u.notifyAll inside).step groupOf (.signalled answer)).1
        result

inductive Signals (t : ControlThread) (id : RunId) (signal : Signal) (after : RunState) :
    List (List Report) → ControlThread → Pid → Signal → Prop
  | first {p : Signalling} (asked : t.Asked id p) (hs : p.signal = signal) (ha : p.after = after) :
      Signals t id signal after [] (t.update t.registry (.signalling p :: t.waiting))
        (t.registry.slot p.slot).leader signal
  | second {p : Signalling} (asked : t.Asked id p) (hs : p.signal = signal) (ha : p.after = after)
      (twice : p.before = .stopped ∧ p.signal = .term) (inside : List Report) :
      Signals t id signal after [inside]
        (t.update (t.registry.written p inside) (.continuing :: t.waiting))
        ((t.registry.notifyAll inside).slot p.slot).leader .cont

/-- The ways in which a control request is replied to. -/
inductive Closes (t : ControlThread) (id : RunId) (signal : Signal) (after : RunState) :
    List (List Report) → ControlThread → Except Error Reply → Prop
  | refused (e : Error) (calls : List (List Report)) :
      Closes t id signal after calls (t.update (t.registry.notifyAll calls.flatten) t.waiting)
        (.error e)
  | already {i : Nat} (found : t.registry.slotOfRunId? id = some i)
      (relayed : (t.registry.slot i).state = .running ∨ (t.registry.slot i).state = .stopped)
      (same : (t.registry.slot i).state = after) :
      Closes t id signal after [] t (.ok .accepted)
  | once {p : Signalling} (asked : t.Asked id p) (hs : p.signal = signal) (ha : p.after = after)
      (once : ¬(p.before = .stopped ∧ p.signal = .term)) (inside : List Report) :
      Closes t id signal after [inside]
        (t.update (t.registry.written p inside) t.waiting) (.ok .accepted)
  | twice {p : Signalling} (asked : t.Asked id p) (hs : p.signal = signal) (ha : p.after = after)
      (twice : p.before = .stopped ∧ p.signal = .term) (inside more : List Report) :
      Closes t id signal after [inside, more]
        (t.update ((t.registry.written p inside).notifyAll more) t.waiting) (.ok .accepted)

variable {groupOf : Pid → Option Pid} {t u : ControlThread} {q : Request} {id : RunId}
  {signal signal' : Signal} {after : RunState} {leader : Pid} {calls : List (List Report)}

theorem notifyAll_eq (t : ControlThread) (reports : List Report) :
    t.notifyAll reports = t.update (t.registry.notifyAll reports) t.waiting := by
  induction reports generalizing t with
  | nil => rfl
  | cons s reports ih => exact ih _

theorem Calls.signals (control : q.Control id signal after)
    (call : t.Calls q calls u leader signal') : t.Signals id signal after calls u leader signal' := by
  induction call with
  | @first groupOf _ _ h =>
    have begins : t.Begins id signal after (t.step groupOf (.request q)) := begins_step control
    generalize t.step groupOf (.request q) = result at begins h ⊢
    cases begins with
    | unknown | denied | already => cases h
    | asks asked hs ha =>
      cases h
      exact .first asked hs ha
  | @next _ v _ _ _ _ _ inside groupOf answer h ih =>
    cases ih with
    | @first p asked hs ha =>
      rw [notifyAll_eq] at h ⊢
      cases answer with
      | error e =>
        rw [step_refused rfl] at h
        cases h
      | ok _ =>
        by_cases twice : p.before = .stopped ∧ p.signal = .term
        · rw [step_sent_twice rfl twice] at h ⊢
          cases h
          exact .second asked hs ha twice inside
        · rw [step_sent rfl twice] at h
          cases h
    | second =>
      rw [notifyAll_eq, step_continued rfl] at h
      cases h

theorem Serves.closes {result : Except Error Reply} (control : q.Control id signal after)
    (served : t.Serves q calls u result) : t.Closes id signal after calls u result := by
  cases served with
  | @atOnce groupOf _ h =>
    have begins : t.Begins id signal after (t.step groupOf (.request q)) := begins_step control
    generalize t.step groupOf (.request q) = result at begins h ⊢
    cases begins with
    | unknown | denied =>
      cases h
      exact .refused _ []
    | already found relayed same =>
      cases h
      exact .already found relayed same
    | asks => cases h
  | @answered _ v _ _ call inside groupOf answer _ h =>
    cases call.signals control with
    | @first p asked hs ha =>
      rw [notifyAll_eq] at h ⊢
      cases answer with
      | error e =>
        rw [step_refused rfl] at h ⊢
        cases h
        have refused : t.Closes id signal after [inside] _ (.error e) := .refused e [inside]
        rwa [List.flatten_singleton] at refused
      | ok _ =>
        by_cases twice : p.before = .stopped ∧ p.signal = .term
        · rw [step_sent_twice rfl twice] at h
          cases h
        · rw [step_sent rfl twice] at h ⊢
          cases h
          exact .once asked hs ha twice inside
    | second asked hs ha twice first =>
      rw [notifyAll_eq, step_continued rfl] at h ⊢
      cases h
      exact .twice asked hs ha twice first inside

end ControlThread
end AppSupervisor
