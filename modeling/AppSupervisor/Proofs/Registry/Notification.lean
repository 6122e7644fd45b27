import AppSupervisor.Proofs.Registry.Instances
import AppSupervisor.Proofs.Registry.Soundness

namespace AppSupervisor

/-- A status change, and the groups that the system knows when it is handled. -/
structure Report where
  groupOf : Pid → Option Pid
  pid : Pid
  event : ChildEvent

namespace Registry

def afterEvent (event : ChildEvent) (state : RunState) : RunState :=
  if event.isTerminal then .terminated
  else if event = .stopped then afterReport .stopped state else afterReport .running state

def owner? (groupOf : Pid → Option Pid) (r : Registry) (pid : Pid) : Option Nat :=
  (r.lookupPid groupOf pid).map Runner.serial

def indexed (r : Registry) : List Nat := r.byGroup.toList.map fun i => (r.slot i).serial

def hear (r : Registry) (s : Report) : Registry := (r.notify s.groupOf s.pid s.event).1

def notifyAll (r : Registry) (reports : List Report) : Registry := reports.foldl hear r

/-- One of the status changes is terminal and concerns the runner. -/
def Ends (n : Nat) : Registry → List Report → Prop
  | _, [] => False
  | r, s :: rest =>
    (s.event.isTerminal ∧ r.owner? s.groupOf s.pid = some n) ∨ Ends n (r.hear s) rest

variable {d : Measures} {r : Registry} {live grouped starting : List Nat} {i n : Nat}
  {event : ChildEvent} {s s' : RunState}

theorem afterEvent_eq_terminated :
    afterEvent event s = .terminated ↔ s = .terminated ∨ event.isTerminal := by
  by_cases terminal : event.isTerminal
  · simp [afterEvent, terminal]
  · cases s <;> by_cases stopped : event = .stopped <;>
      simp [afterEvent, terminal, stopped, afterReport, RunState.isGone]

theorem isGone_afterEvent (gone : s.isGone) : (afterEvent event s).isGone := by
  unfold afterEvent afterReport
  simp only [gone, if_true, ite_self]
  split
  next => rfl
  next => exact gone

theorem hasProcess_afterEvent (lasting : ¬event.isTerminal) (h : s.hasProcess) :
    (afterEvent event s).hasProcess := by
  unfold afterEvent
  rw [if_neg lasting]
  split
  next => exact RunState.hasProcess_afterReport h (Or.inr rfl)
  next => exact RunState.hasProcess_afterReport h (Or.inl rfl)

theorem relayed_afterEvent (relayed : s = .running ∨ s = .stopped) :
    afterEvent event s = .running ∨ afterEvent event s = .stopped ∨
      afterEvent event s = .terminated := by
  have reported : ∀ s', afterReport s' s = s' := by
    intro s'
    rcases relayed with rfl | rfl <;> rfl
  unfold afterEvent
  simp only [reported]
  split
  next => exact Or.inr (Or.inr rfl)
  next =>
    split
    next => exact Or.inr (Or.inl rfl)
    next => exact Or.inl rfl

theorem notifyAll_append (r : Registry) (reports more : List Report) :
    r.notifyAll (reports ++ more) = (r.notifyAll reports).notifyAll more :=
  List.foldl_append

theorem notify_eq {groupOf : Pid → Option Pid} {pid : Pid}
    (found : r.slotOfPid? groupOf pid = some i) (event : ChildEvent) :
    r.notify groupOf pid event =
      ((if event.isTerminal then r.eraseGroup i else r).updateState i (afterEvent event), true) := by
  have written : afterEvent event = if event.isTerminal then fun _ => .terminated
      else if event = .stopped then afterReport .stopped else afterReport .running := by
    funext state
    unfold afterEvent
    split
    next => rfl
    next => split <;> rfl
  simp only [notify, found, written]
  split
  next => rfl
  next => split <;> rfl

theorem notify_eq_self {groupOf : Pid → Option Pid} {pid : Pid}
    (unowned : r.slotOfPid? groupOf pid = none) (event : ChildEvent) :
    r.notify groupOf pid event = (r, false) := by
  simp only [notify, unowned]

/-- What a status change does: nothing, or it writes the state of one runner with a process. -/
inductive Hears (r : Registry) (grouped : List Nat) (s : Report) : Registry → Prop
  | unowned (owner : r.owner? s.groupOf s.pid = none) : Hears r grouped s r
  | ended {i : Nat} (hi : i ∈ grouped) (owner : r.owner? s.groupOf s.pid = some (r.slot i).serial)
      (terminal : s.event.isTerminal) :
      Hears r grouped s ((r.eraseGroup i).updateState i (afterEvent s.event))
  | reported {i : Nat} (hi : i ∈ grouped)
      (owner : r.owner? s.groupOf s.pid = some (r.slot i).serial) (lasting : ¬s.event.isTerminal) :
      Hears r grouped s (r.updateState i (afterEvent s.event))

theorem Layout.hears (h : r.Layout d live grouped) (s : Report) :
    r.Hears grouped s (r.hear s) := by
  unfold hear
  cases hs : r.slotOfPid? s.groupOf s.pid with
  | none =>
    rw [notify_eq_self hs]
    exact .unowned (by simp [owner?, lookupPid, hs])
  | some i =>
    obtain ⟨hi, _⟩ := h.mem_of_slotOfPid? hs
    have owner : r.owner? s.groupOf s.pid = some (r.slot i).serial := by
      simp [owner?, lookupPid, hs]
    rw [notify_eq hs]
    by_cases terminal : s.event.isTerminal
    · simp only [if_pos terminal]
      exact .ended hi owner terminal
    · simp only [if_neg terminal]
      exact .reported hi owner terminal

theorem Layout.slot_hear (h : r.Layout d live grouped) (s : Report) (i : Nat) :
    (r.hear s).slot i = { r.slot i with state := ((r.hear s).slot i).state } := by
  have heard := h.hears s
  generalize r.hear s = r' at heard ⊢
  cases heard with
  | unowned => rfl
  | ended =>
    rw [slot_updateState]
    split <;> rfl
  | reported =>
    rw [slot_updateState]
    split <;> rfl

theorem leader_hear (r : Registry) (s : Report) (i : Nat) :
    ((r.hear s).slot i).leader = (r.slot i).leader := by
  unfold hear
  cases found : r.slotOfPid? s.groupOf s.pid with
  | none => rw [notify_eq_self found]
  | some j =>
    rw [notify_eq found, slot_updateState]
    split <;> split <;> rfl

theorem Layout.runner?_hear (h : r.Layout d live grouped) (s : Report) :
    (r.hear s).runner? n = if r.owner? s.groupOf s.pid = some n then
      (r.runner? n).map fun x => { x with state := afterEvent s.event x.state }
      else r.runner? n := by
  have written : ∀ {r' : Registry} {grouped' : List Nat} {i : Nat}, r'.Layout d live grouped' →
      i ∈ live → (r'.updateState i (afterEvent s.event)).runner? n =
        if some (r'.slot i).serial = some n then
          (r'.runner? n).map fun x => { x with state := afterEvent s.event x.state }
        else r'.runner? n := by
    intro r' grouped' i h' hi
    rw [h'.runner?_updateState hi]
    by_cases he : n = (r'.slot i).serial
    · subst he
      rw [if_pos rfl, if_pos rfl, h'.runner?_slot hi, Option.map_some]
    · rw [if_neg he, if_neg fun same => he (Option.some.inj same).symm]
  have heard := h.hears s
  generalize r.hear s = r' at heard ⊢
  cases heard with
  | unowned owner => rw [owner, if_neg (by simp)]
  | ended hi owner _ =>
    rw [owner]
    exact written (h.eraseGroup _) (h.grouped_live _ hi)
  | reported hi owner _ =>
    rw [owner]
    exact written h (h.grouped_live _ hi)

theorem Layout.state?_hear (h : r.Layout d live grouped) (s : Report) :
    (r.hear s).state? n = if r.owner? s.groupOf s.pid = some n then
      (r.state? n).map (afterEvent s.event) else r.state? n := by
  unfold state?
  rw [h.runner?_hear s]
  split
  next => simp only [Option.map_map, Function.comp_def]
  next => rfl

theorem Layout.state?_of_owner? (h : r.Layout d live grouped) {s : Report}
    (owner : r.owner? s.groupOf s.pid = some n) : ∃ state, r.state? n = some state := by
  obtain ⟨x, hx, rfl⟩ := Option.map_eq_some_iff.mp owner
  obtain ⟨i, hi, rfl⟩ := Option.map_eq_some_iff.mp hx
  obtain ⟨hg, _⟩ := h.mem_of_slotOfPid? hi
  exact ⟨_, h.state?_slot (h.grouped_live i hg)⟩

theorem Layout.hear_terminated_iff (h : r.Layout d live grouped) (s : Report) :
    (r.hear s).state? n = some .terminated ↔
      r.state? n = some .terminated ∨
        (s.event.isTerminal ∧ r.owner? s.groupOf s.pid = some n) := by
  rw [h.state?_hear s]
  by_cases owner : r.owner? s.groupOf s.pid = some n
  · obtain ⟨state, hstate⟩ := h.state?_of_owner? owner
    simp [owner, hstate, afterEvent_eq_terminated]
  · simp [owner]

namespace Sound

theorem hear (h : r.Sound d live grouped starting) (s : Report) :
    ∃ grouped', (r.hear s).Sound d live grouped' starting := by
  unfold Registry.hear notify
  cases hs : r.slotOfPid? s.groupOf s.pid with
  | none => exact ⟨grouped, h⟩
  | some i =>
    obtain ⟨hi, _⟩ := h.layout.mem_of_slotOfPid? hs
    simp only
    split
    next => exact ⟨_, h.finish hi⟩
    next =>
      split
      next => exact ⟨grouped, h.report hi (Or.inr rfl)⟩
      next => exact ⟨grouped, h.report hi (Or.inl rfl)⟩

theorem notifyAll (h : r.Sound d live grouped starting) (reports : List Report) :
    ∃ grouped', (r.notifyAll reports).Sound d live grouped' starting := by
  induction reports generalizing r grouped with
  | nil => exact ⟨grouped, h⟩
  | cons s rest ih =>
    obtain ⟨_, heard⟩ := h.hear s
    exact ih heard

theorem slot_notifyAll (h : r.Sound d live grouped starting) (reports : List Report) (i : Nat) :
    (r.notifyAll reports).slot i =
      { r.slot i with state := ((r.notifyAll reports).slot i).state } := by
  induction reports generalizing r grouped with
  | nil => rfl
  | cons s rest ih =>
    obtain ⟨_, heard⟩ := h.hear s
    have later := ih heard
    rw [h.layout.slot_hear s i] at later
    exact later

theorem serial_notifyAll (h : r.Sound d live grouped starting) (reports : List Report) (i : Nat) :
    ((r.notifyAll reports).slot i).serial = (r.slot i).serial := by
  rw [h.slot_notifyAll reports i]

theorem state?_notifyAll (h : r.Sound d live grouped starting) (hi : i ∈ live)
    (reports : List Report) : (r.notifyAll reports).state? (r.slot i).serial =
      some ((r.notifyAll reports).slot i).state := by
  obtain ⟨_, later⟩ := h.notifyAll reports
  rw [← h.serial_notifyAll reports i]
  exact later.layout.state?_slot hi

/-- What every status change keeps of the state of a runner, many in a row keep. -/
theorem notifyAll_keeps {Q : RunState → Prop} (step : ∀ event s, Q s → Q (afterEvent event s))
    (h : r.Sound d live grouped starting) (hs : r.state? n = some s) (q : Q s)
    (reports : List Report) : ∃ s', (r.notifyAll reports).state? n = some s' ∧ Q s' := by
  induction reports generalizing r grouped s with
  | nil => exact ⟨s, hs, q⟩
  | cons report rest ih =>
    obtain ⟨_, heard⟩ := h.hear report
    have after := h.layout.state?_hear report (n := n)
    rw [hs] at after
    split at after
    next => exact ih heard after (step report.event s q)
    next => exact ih heard after q

theorem notifyAll_terminated_iff (h : r.Sound d live grouped starting) (reports : List Report) :
    (r.notifyAll reports).state? n = some .terminated ↔
      r.state? n = some .terminated ∨ r.Ends n reports := by
  induction reports generalizing r grouped with
  | nil => simp [Registry.notifyAll, Ends]
  | cons s rest ih =>
    obtain ⟨_, heard⟩ := h.hear s
    show ((r.hear s).notifyAll rest).state? n = _ ↔ _
    rw [ih heard, h.layout.hear_terminated_iff s, or_assoc]
    rfl

theorem notifyAll_relayed (h : r.Sound d live grouped starting) (hs : r.state? n = some s)
    (relayed : s = .running ∨ s = .stopped) (reports : List Report) :
    ∃ s', (r.notifyAll reports).state? n = some s' ∧
      (s' = .running ∨ s' = .stopped ∨ s' = .terminated) := by
  refine notifyAll_keeps (fun event s q => ?_) h hs (relayed.imp_right Or.inl) reports
  rcases q with rfl | rfl | rfl
  · exact relayed_afterEvent (Or.inl rfl)
  · exact relayed_afterEvent (Or.inr rfl)
  · exact Or.inr (Or.inr (afterEvent_eq_terminated.mpr (Or.inl rfl)))

theorem mem_indexed (h : r.Sound d live grouped starting) :
    n ∈ r.indexed ↔ ∃ s, r.state? n = some s ∧ s.hasProcess := by
  unfold indexed
  rw [List.mem_map]
  constructor
  · rintro ⟨i, hi, rfl⟩
    have hg := h.layout.byGroup.mem_toList.mp hi
    exact ⟨_, h.layout.state?_slot (h.layout.grouped_live i hg), h.hasProcess hg⟩
  · rintro ⟨s, hs, process⟩
    obtain ⟨x, hx, rfl⟩ := Option.map_eq_some_iff.mp hs
    obtain ⟨i, hi, rfl, hn⟩ := h.layout.runner?_eq_some.mp hx
    exact ⟨i, h.layout.byGroup.mem_toList.mpr ((h.mem_grouped i hi).mpr process), hn⟩

theorem serial_mem_indexed (h : r.Sound d live grouped starting) (hi : i ∈ live) :
    (r.slot i).serial ∈ r.indexed ↔ i ∈ grouped := by
  rw [h.mem_indexed, h.layout.state?_slot hi, h.mem_grouped i hi]
  simp

end Sound
end Registry
end AppSupervisor
