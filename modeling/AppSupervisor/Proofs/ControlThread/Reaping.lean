import AppSupervisor.Proofs.ControlThread.Soundness
import AppSupervisor.Proofs.Supervisor.Sequel

namespace AppSupervisor

namespace Registry

/-- What a reap does when the indexed leaders are distinct. -/
structure Reaps (groupOf : Pid → Option Pid) (r : Registry) (pending : Pending) (s : Reaping) :
    Prop where
  leaders : ∀ leader, leader ∈ r.leaders ↔ ∃ x ∈ r.toList, x.state.hasProcess ∧ x.leader = leader
  asked : s = r.leaders.foldl (Reaping.collect groupOf) ⟨r, pending, 0⟩
  /-- Of a leader that is a child the statuses are taken up to the first terminal change. -/
  taken : ∀ leader ∈ r.leaders, ∀ statuses, pending.queue leader = some statuses →
    ∃ left, s.pending.queue leader = some left ∧
      WaitStatus.Due leader statuses (pending.due leader) left
  skipped : ∀ leader, pending.queue leader = none →
    pending.due leader = [] ∧ s.pending.queue leader = none
  others : ∀ pid ∉ r.leaders, s.pending.queue pid = pending.queue pid
  applied : s.applied = (r.leaders.map fun leader => (pending.due leader).length).sum
  toList : s.registry.toList = r.toList.map fun x =>
    if x.state.hasProcess
    then { x with
      state := (pending.due x.leader).foldl (fun state event => afterEvent event state) x.state }
    else x
  relayed : ∀ order : List Pid, order.Perm r.leaders →
    (∀ owned ∈ (r.relay (order.flatMap (pending.reports groupOf))).2, owned) ∧
    s.registry.Coincides (r.relay (order.flatMap (pending.reports groupOf))).1 ∧
    ∀ home, Supervisor.Indistinguishable ⟨home, s.registry⟩
      ⟨home, (r.relay (order.flatMap (pending.reports groupOf))).1⟩

variable {d : Measures} {r r₁ r₂ : Registry} {live grouped starting : List Nat}
  {pending : Pending} {asked asked' : List Pid}

theorem hasProcess_afterDue {events : List ChildEvent} {state : RunState}
    (lasting : ¬events.any ChildEvent.isTerminal) (h : state.hasProcess) :
    (afterDue events state).hasProcess := by
  induction events generalizing state with
  | nil => exact h
  | cons event events ih =>
    rw [List.any_cons, Bool.or_eq_true, not_or] at lasting
    rw [afterDue_lasting lasting.1]
    exact ih lasting.2 (hasProcess_afterEvent lasting.1 h)

theorem Reaped.refines (h : Reaped d r live grouped pending asked r₁)
    (sound : r.Sound d live grouped starting) :
    ∃ a, r₁.Refines d live (grouped.filter fun i =>
      ¬((r.slot i).leader ∈ asked ∧ (pending.events (r.slot i).leader).any ChildEvent.isTerminal)) a := by
  refine ⟨_, h.layout, rfl, fun i hi => ?_⟩
  obtain ⟨hg, lasting⟩ := List.mem_filter.mp hi
  have process := sound.hasProcess hg
  rw [h.slot i]
  split
  next both =>
    refine hasProcess_afterDue (fun ends => ?_) process
    simp [both.2, ends] at lasting
  next => exact process

theorem Reaped.alike (h : Reaped d r live grouped pending asked r₁)
    (h' : Reaped d r live grouped pending asked r₂) (sound : r.Sound d live grouped starting) :
    r₁.Alike r₂ := by
  obtain ⟨_, refines⟩ := h.refines sound
  refine refines.alike h'.layout (fun i _ => ?_) ?_ ?_
  · rw [h'.slot i, h.slot i]
  · rw [(h.coincides h').rest]
  · rw [(h.coincides h').rest]

theorem Reaped.toList (h : Reaped d r live grouped pending r.leaders r₁)
    (sound : r.Sound d live grouped starting) : r₁.toList = r.toList.map fun x =>
      if x.state.hasProcess then { x with state := afterDue (pending.events x.leader) x.state } else x := by
  rw [h.frame, Registry.toList, Registry.toList, List.map_map]
  refine List.map_congr_left fun i hi => ?_
  have hl := sound.layout.byRunId.mem_toList.mp hi
  show r₁.slot i = _
  rw [h.slot i]
  by_cases process : (r.slot i).state.hasProcess
  · have hg := (sound.mem_grouped i hl).mpr process
    have leads := sound.layout.mem_leaders.mpr ⟨i, hg, rfl⟩
    simp [hg, leads, process]
  · simp [sound.not_mem_grouped process, process]

theorem Sound.reaps (h : r.Sound d live grouped starting) (distinct : r.leaders.Nodup)
    (groupOf : Pid → Option Pid) (pending : Pending) :
    r.Reaps groupOf pending (r.reap groupOf pending) := by
  have unshared := h.layout.unshared distinct
  have asked := h.layout.reap_eq_foldl groupOf pending
  have collected := Reaping.foldl_collect groupOf distinct ⟨r, pending, 0⟩
  rw [← asked] at collected
  obtain ⟨reaped, owned⟩ := h.layout.reaped unshared groupOf pending distinct fun _ hl => hl
  refine ⟨fun leader => ?_, asked, fun leader leads statuses held => ?_, fun leader stranger => ?_,
    fun pid other => ?_, ?_, ?_, fun order perm => ?_⟩
  · rw [h.layout.mem_leaders]
    constructor
    · rintro ⟨i, hi, leads⟩
      exact ⟨_, h.layout.mem_toList.mpr ⟨i, h.layout.grouped_live i hi, rfl⟩, h.hasProcess hi, leads⟩
    · rintro ⟨x, hx, process, leads⟩
      obtain ⟨i, hi, rfl⟩ := h.layout.mem_toList.mp hx
      exact ⟨i, (h.mem_grouped i hi).mpr process, leads⟩
  · have due := WaitStatus.due_of_own (pending.own leader statuses held)
    rw [collected, pending.queue_collected leads, held, Pending.due, Pending.events, held]
    exact ⟨_, rfl, due⟩
  · have none : pending.due leader = [] := by
      rw [Pending.due, pending.events_eq_nil (.inl stranger), due_nil]
    rw [collected, Pending.collected]
    simp [stranger, none]
  · rw [collected, pending.queue_collected_of_not_mem other]
  · rw [collected, Nat.zero_add, List.count_eq_length.mpr fun answer mem => (owned answer mem).symm,
      length_relay, List.length_flatMap]
    simp only [Pending.reports, List.length_map]
  · rw [collected]
    exact reaped.toList h
  · obtain ⟨reaped', owned'⟩ := h.layout.reaped unshared groupOf pending
      (perm.nodup_iff.mpr distinct) fun leader hl => perm.mem_iff.mp hl
    have again := reaped'.congr fun leader => perm.mem_iff
    rw [collected]
    exact ⟨owned', reaped.coincides again, fun home =>
      Supervisor.Alike.indistinguishable ⟨rfl, reaped.alike again h⟩⟩

end Registry

namespace ControlThread

/-- Whatever a supervisor is asked, told and answered before: a reap comes to every leader that is
indexed when it begins, and its outcome does not depend on the order of the chains. -/
theorem reap_of_reaches {capacity buckets : UInt64} {maxRunId : UInt32} {home : String}
    {r : Registry} {t : ControlThread} (created : Registry.create capacity maxRunId buckets = .ok r)
    (h : Reaches (ofSupervisor ⟨home, r⟩) t) (distinct : t.registry.leaders.Nodup)
    (groupOf : Pid → Option Pid) (pending : Registry.Pending) :
    t.registry.Reaps groupOf pending (t.registry.reap groupOf pending) := by
  obtain ⟨d, live, grouped, sound, _⟩ := sound_of_create created h
  exact sound.registry.reaps distinct groupOf pending

def crewed : ControlThread := (ofSupervisor ⟨"/home", .empty 3 4 2⟩).run (fun _ => none) [
  .request (.start notes), .launched (.ok ⟨⟨7⟩, ⟨7⟩⟩), .request (.start notes),
  .launched (.ok ⟨⟨8⟩, ⟨8⟩⟩), .request (.start notes), .launched (.ok ⟨⟨5⟩, ⟨9⟩⟩)]

/-- Both runners of that chain end, one of them with a status left over, and the third is no child. -/
def crewStatuses : Registry.Pending where
  queue pid :=
    if pid = ⟨7⟩ then some [.stopped ⟨7⟩ .tstp, .exited ⟨7⟩ 0, .continued ⟨7⟩]
    else if pid = ⟨5⟩ then some [.signaled ⟨5⟩ .kill false] else none
  own pid statuses held := by
    split at held
    next same =>
      cases held
      subst same
      decide
    next =>
      split at held
      next same =>
        cases held
        subst same
        decide
      next => cases held

theorem reap_crewed :
    let reaping := crewed.registry.reap (fun _ => none) crewStatuses
    crewed.registry.leaders = [⟨8⟩, ⟨5⟩, ⟨7⟩] ∧
    (reaping.applied = 3 ∧ reaping.registry.leaders = [⟨8⟩]) ∧
    crewed.registry.Reaps (fun _ => none) crewStatuses reaping := by
  have leaders : crewed.registry.leaders = [⟨8⟩, ⟨5⟩, ⟨7⟩] := by decide +kernel
  have distinct : crewed.registry.leaders.Nodup := by
    rw [leaders]
    decide
  exact ⟨leaders, by decide +kernel, reap_of_reaches
    (show Registry.create 3 4 2 = .ok (.empty 3 4 2) from rfl) (reaches_run _ _ _) distinct _ _⟩

end ControlThread
end AppSupervisor
