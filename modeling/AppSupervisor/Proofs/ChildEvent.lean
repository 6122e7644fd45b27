import AppSupervisor.ChildEvent

namespace AppSupervisor

def ChildEvent.due (events : List ChildEvent) : List ChildEvent :=
  events.take (events.findIdx ChildEvent.isTerminal + 1)

namespace WaitStatus

inductive Tells (pid : Pid) : WaitStatus → ChildEvent → Prop
  | exited (code : Int) : Tells pid (exited pid code) (.exited code)
  | killed (signal : Signal) : Tells pid (signaled pid signal false) (.killed signal)
  | dumped (signal : Signal) : Tells pid (signaled pid signal true) (.dumped signal)
  | stopped (signal : Signal) : Tells pid (stopped pid signal) .stopped
  | continued : Tells pid (continued pid) .continued
  | tracedEvent (signal : Signal) (code : Int) : Tells pid (tracedEvent pid signal code) .trapped
  | tracedCall : Tells pid (tracedCall pid) .trapped

/-- Of a child's statuses, the changes up to the first terminal one, and the statuses behind it. -/
inductive Due (pid : Pid) : List WaitStatus → List ChildEvent → List WaitStatus → Prop
  | none : Due pid [] [] []
  | last {status : WaitStatus} {event : ChildEvent} {later : List WaitStatus}
      (tells : status.Tells pid event) (terminal : event.isTerminal) :
      Due pid (status :: later) [event] later
  | next {status : WaitStatus} {event : ChildEvent} {later left : List WaitStatus}
      {events : List ChildEvent} (tells : status.Tells pid event) (lasting : ¬event.isTerminal)
      (rest : Due pid later events left) : Due pid (status :: later) (event :: events) left

def events (statuses : List WaitStatus) : List ChildEvent :=
  statuses.filterMap fun status => status.change?.map Prod.snd

end WaitStatus

open ChildEvent (due)

variable {pid : Pid} {status : WaitStatus} {event : ChildEvent} {events : List ChildEvent}
  {statuses : List WaitStatus}

@[simp] theorem due_nil : due [] = [] := rfl

theorem due_terminal (terminal : event.isTerminal) : due (event :: events) = [event] := by
  simp [due, List.findIdx_cons, terminal]

theorem due_lasting (lasting : ¬event.isTerminal) : due (event :: events) = event :: due events := by
  simp [due, List.findIdx_cons, lasting]

theorem due_of_lasting (lasting : ¬events.any ChildEvent.isTerminal) : due events = events := by
  have none : events.findIdx ChildEvent.isTerminal = events.length :=
    List.findIdx_eq_length.mpr (by simpa using lasting)
  exact List.take_of_length_le (by omega)

namespace WaitStatus

theorem change?_eq_some : status.change? = some (pid, event) ↔ status.Tells pid event := by
  constructor
  · intro h
    cases status with
    | exited => cases h; exact .exited _
    | signaled _ _ core => cases core <;> cases h <;> constructor
    | stopped => cases h; exact .stopped _
    | tracedEvent => cases h; exact .tracedEvent _ _
    | tracedCall => cases h; exact .tracedCall
    | continued => cases h; exact .continued
    | stillAlive => cases h
  · rintro (_ | _ | _ | _ | _ | _ | _) <;> rfl

theorem exists_tells (own : status.pid? = some pid) : ∃ event, status.Tells pid event := by
  cases status with
  | stillAlive => cases own
  | exited _ code => cases own; exact ⟨_, .exited code⟩
  | signaled _ signal core =>
    cases own
    cases core
    · exact ⟨_, .killed signal⟩
    · exact ⟨_, .dumped signal⟩
  | stopped _ signal => cases own; exact ⟨_, .stopped signal⟩
  | tracedEvent _ signal code => cases own; exact ⟨_, .tracedEvent signal code⟩
  | tracedCall => cases own; exact ⟨_, .tracedCall⟩
  | continued => cases own; exact ⟨_, .continued⟩

theorem events_cons (tells : status.Tells pid event) (later : List WaitStatus) :
    WaitStatus.events (status :: later) = event :: WaitStatus.events later := by
  simp [WaitStatus.events, change?_eq_some.mpr tells]

theorem length_events (own : ∀ status ∈ statuses, status.pid? = some pid) :
    (WaitStatus.events statuses).length = statuses.length := by
  induction statuses with
  | nil => rfl
  | cons status later ih =>
    obtain ⟨here, others⟩ := List.forall_mem_cons.mp own
    obtain ⟨event, tells⟩ := exists_tells here
    rw [events_cons tells, List.length_cons, ih others, List.length_cons]

/-- A child's own statuses all tell of a change, so as many statuses are taken as changes. -/
theorem due_of_own (own : ∀ status ∈ statuses, status.pid? = some pid) :
    Due pid statuses (due (WaitStatus.events statuses))
      (statuses.drop (due (WaitStatus.events statuses)).length) := by
  induction statuses with
  | nil => exact .none
  | cons status later ih =>
    obtain ⟨here, others⟩ := List.forall_mem_cons.mp own
    obtain ⟨event, tells⟩ := exists_tells here
    rw [events_cons tells]
    by_cases terminal : event.isTerminal
    · rw [due_terminal terminal]
      exact .last tells terminal
    · rw [due_lasting terminal]
      exact .next tells terminal (ih others)

end WaitStatus
end AppSupervisor
