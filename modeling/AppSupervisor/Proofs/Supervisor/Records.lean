import AppSupervisor.Proofs.ControlThread.Soundness
import AppSupervisor.Proofs.Registry.Instances

namespace AppSupervisor

namespace Supervisor

/-- The list of all records and the records of single runners tell the same. -/
structure Consistent (s : Supervisor) : Prop where
  nodup : (s.list.map Record.runId).Nodup
  found : ∀ id record, s.state id = .ok record ↔ record ∈ s.list ∧ record.runId = id
  /-- What is not listed is not found, whatever the reason. -/
  notFound : ∀ id e, s.state id = .error e ↔
    e = .notFound id ∧ ∀ record ∈ s.list, record.runId ≠ id
  reported : ∀ record ∈ s.list, ∃ x, s.registry.lookupRunId record.runId = some x ∧
    record = x.record ∧ (record.state = .running ∨ record.state = .stopped) ∧
    (record.state = .stopped ↔ x.state = .stopped)
  ordered : s.list = (s.registry.toList.filter fun x =>
    x.state ≠ .terminating ∧ x.state ≠ .terminated).map Runner.record

variable {d : Measures} {s : Supervisor} {live grouped : List Nat} {record : Record} {id : RunId}

theorem mem_list : record ∈ s.list ↔ ∃ x ∈ s.registry.toList, ¬x.state.isGone ∧ x.record = record := by
  simp only [list, List.mem_map, List.mem_filter, Bool.not_eq_true', Bool.not_eq_true, and_assoc]

theorem list_eq (s : Supervisor) : s.list = (s.registry.toList.filter fun x =>
    x.state ≠ .terminating ∧ x.state ≠ .terminated).map Runner.record := by
  refine congrArg (List.map _) (List.filter_congr fun x _ => ?_)
  cases x.state <;> rfl

section

variable (h : s.registry.Layout d live grouped)

include h

theorem state_eq_ok : s.state id = .ok record ↔
    ∃ x ∈ s.registry.toList, x.runId = id ∧ ¬x.state.isGone ∧ x.record = record := by
  constructor
  · intro answer
    unfold state at answer
    split at answer
    next x hx =>
      obtain ⟨found, here⟩ := Option.filter_eq_some_iff.mp hx
      obtain ⟨mem, named⟩ := h.lookupRunId_eq_some.mp found
      exact ⟨x, mem, named, by simpa using here, Except.ok.inj answer⟩
    next => cases answer
  · rintro ⟨x, mem, named, here, rfl⟩
    have found := h.lookupRunId_eq_some.mpr ⟨mem, named⟩
    have shown : (s.registry.lookupRunId id).filter (fun r => !r.state.isGone) = some x :=
      Option.filter_eq_some_iff.mpr ⟨found, by simpa using here⟩
    simp only [state, shown]

theorem state_eq_ok_iff_mem : s.state id = .ok record ↔ record ∈ s.list ∧ record.runId = id := by
  rw [state_eq_ok h, mem_list]
  constructor
  · rintro ⟨x, mem, rfl, here, rfl⟩
    exact ⟨⟨x, mem, here, rfl⟩, rfl⟩
  · rintro ⟨⟨x, mem, here, rfl⟩, rfl⟩
    exact ⟨x, mem, rfl, here, rfl⟩

theorem nodup_list : (s.list.map Record.runId).Nodup := by
  have sub : (s.list.map Record.runId).Sublist (s.registry.toList.map Runner.runId) := by
    rw [list, List.map_map]
    exact List.filter_sublist.map _
  exact h.nodup_runIds.sublist sub

theorem state_eq_error {e : Error} : s.state id = .error e ↔
    e = .notFound id ∧ ∀ record ∈ s.list, record.runId ≠ id := by
  have unlisted : (∀ record ∈ s.list, record.runId ≠ id) ↔ ∀ record, s.state id ≠ .ok record := by
    refine forall_congr' fun record => ?_
    rw [ne_eq (s.state id), state_eq_ok_iff_mem h, not_and]
  rw [unlisted]
  unfold state
  split
  next x _ => exact ⟨nofun, fun absent => absurd rfl (absent.2 x.record)⟩
  next => exact ⟨fun same => ⟨(Except.error.inj same).symm, nofun⟩, fun same => same.1 ▸ rfl⟩

theorem consistent_of_layout : s.Consistent where
  nodup := nodup_list h
  found _ _ := state_eq_ok_iff_mem h
  notFound _ _ := state_eq_error h
  reported record listed := by
    obtain ⟨x, mem, here, rfl⟩ := mem_list.mp listed
    obtain ⟨shown, stopped⟩ := RunState.reported_of_not_isGone here
    exact ⟨x, h.lookupRunId_eq_some.mpr ⟨mem, rfl⟩, rfl, shown, stopped⟩
  ordered := s.list_eq

end

end Supervisor

namespace ControlThread

/-- Whenever clients ask, also while the launcher works on a call, they are told the same about all
runners and about each. -/
theorem consistent_of_reaches {capacity buckets : UInt64} {maxRunId : UInt32} {home : String}
    {r : Registry} {t : ControlThread} (created : Registry.create capacity maxRunId buckets = .ok r)
    (h : Reaches (ofSupervisor ⟨home, r⟩) t) : t.supervisor.Consistent := by
  obtain ⟨_, _, _, sound, _⟩ := sound_of_create created h
  exact Supervisor.consistent_of_layout sound.registry.layout

def assorted : ControlThread := (ofSupervisor ⟨"/home", .empty 4 5 2⟩).run (fun _ => none) [
  .request (.start notes), .launched (.ok ⟨⟨7⟩, ⟨7⟩⟩), .request (.start notes),
  .launched (.ok ⟨⟨8⟩, ⟨8⟩⟩), .request (.start notes), .launched (.ok ⟨⟨9⟩, ⟨9⟩⟩),
  .request (.stop ⟨2⟩), .signalled (.ok ()), .request (.terminate ⟨3⟩), .signalled (.ok ()),
  .request (.start notes)]

theorem consistent_assorted :
    assorted.supervisor.list =
      [⟨⟨4⟩, .running, "notes"⟩, ⟨⟨2⟩, .stopped, "notes"⟩, ⟨⟨1⟩, .running, "notes"⟩] ∧
    assorted.supervisor.Consistent :=
  ⟨by decide +kernel, consistent_of_reaches
    (show Registry.create 4 5 2 = .ok (.empty 4 5 2) from rfl) (reaches_run _ _ _)⟩

end ControlThread
end AppSupervisor
