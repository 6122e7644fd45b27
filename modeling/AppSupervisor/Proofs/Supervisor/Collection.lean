import AppSupervisor.Proofs.ControlThread.Soundness
import AppSupervisor.Proofs.Registry.Clearance
import AppSupervisor.Proofs.Supervisor.Sequel

namespace AppSupervisor

namespace Registry

def ended (r : Registry) : List RunId :=
  (r.toList.filter (·.state = .terminated)).map Runner.runId

/-- The runners with some run ids have been given back. -/
structure Strips (d : Measures) (r : Registry) (live grouped : List Nat) (ids : List RunId)
    (r' : Registry) : Prop where
  layout : r'.Layout d (live.filter fun i => (r.slot i).runId ∉ ids) grouped
  slot : ∀ i ∈ live, (r.slot i).runId ∉ ids → r'.slot i = r.slot i
  lastRunId : r'.lastRunId = r.lastRunId
  allocations : r'.allocations = r.allocations

variable {d : Measures} {r r' : Registry} {live grouped starting : List Nat} {ids : List RunId}
  {id : RunId}

theorem Layout.mem_ended (h : r.Layout d live grouped) :
    id ∈ r.ended ↔ ∃ i ∈ live, (r.slot i).state = .terminated ∧ (r.slot i).runId = id := by
  simp only [ended, List.mem_map, List.mem_filter, h.mem_toList, decide_eq_true_eq]
  constructor
  · rintro ⟨_, ⟨⟨i, hi, rfl⟩, ended⟩, named⟩
    exact ⟨i, hi, ended, named⟩
  · rintro ⟨i, hi, ended, named⟩
    exact ⟨_, ⟨⟨i, hi, rfl⟩, ended⟩, named⟩

theorem Layout.nodup_ended (h : r.Layout d live grouped) : r.ended.Nodup :=
  h.nodup_runIds.sublist (List.filter_sublist.map _)

end Registry

namespace Supervisor

open Registry

def removeAll (s : Supervisor) : List RunId → Supervisor × List (Except Error Unit)
  | [] => (s, [])
  | id :: ids =>
    let (s, answer) := s.remove id
    let (s, answers) := s.removeAll ids
    (s, answer :: answers)

/-- What collecting does. -/
structure Collects (s s' : Supervisor) (count : Nat) : Prop where
  home : s'.home = s.home
  count : count = s.registry.ended.length
  cleared : s.registry.Clears s'.registry
  again : s'.collect = (s', 0)
  removed : ∀ ids : List RunId, ids.Perm s.registry.ended →
    (∀ answer ∈ (s.removeAll ids).2, answer = .ok ()) ∧ s'.Indistinguishable (s.removeAll ids).1

variable {d : Measures} {r r' : Registry} {live grouped starting : List Nat} {ids : List RunId}
  {id : RunId}

theorem removeAll_append (s : Supervisor) (ids more : List RunId) :
    s.removeAll (ids ++ more) = (((s.removeAll ids).1.removeAll more).1,
      (s.removeAll ids).2 ++ ((s.removeAll ids).1.removeAll more).2) := by
  induction ids generalizing s with
  | nil => rfl
  | cons id ids ih => simp only [List.cons_append, removeAll, ih]

theorem remove_ended (strips : Strips d r live grouped ids r') (h : r.Sound d live grouped starting)
    (home : String) (ended : id ∈ r.ended) (hn : id ∉ ids) :
    ∃ r'', remove ⟨home, r'⟩ id = (⟨home, r''⟩, .ok ()) ∧
      Strips d r live grouped (ids ++ [id]) r'' := by
  obtain ⟨i, hi, terminated, rfl⟩ := h.layout.mem_ended.mp ended
  have same := strips.slot i hi hn
  have still : i ∈ live.filter fun i => (r.slot i).runId ∉ ids :=
    List.mem_filter.mpr ⟨hi, by simpa using hn⟩
  have found : r'.slotOfRunId? (r.slot i).runId = some i :=
    strips.layout.slotOfRunId?_eq_some.mpr ⟨still, by rw [same]⟩
  have hg : i ∉ grouped := fun hm => h.unended i hm terminated
  refine ⟨r'.release i, ?_, ?_, fun j hj named => ?_, strips.lastRunId, strips.allocations⟩
  · unfold remove
    rw [found]
    simp only [same, terminated, if_true]
  · refine (congrArg (Layout d _ · grouped) ?_).mp (strips.layout.release still hg)
    rw [List.filter_filter]
    refine List.filter_congr fun j hj => ?_
    by_cases he : j = i
    · simp [he]
    · have differ : (r.slot j).runId ≠ (r.slot i).runId := fun same =>
        he (h.layout.runId_inj j hj i hi same)
      simp [he, differ]
  · rw [List.mem_append, not_or] at named
    have hne : j ≠ i := by
      rintro rfl
      simp at named
    rw [slot_release_of_ne hne]
    exact strips.slot j hj named.1

theorem removeAll_ended (h : r.Sound d live grouped starting) (home : String) (nodup : ids.Nodup)
    (sub : ∀ id ∈ ids, id ∈ r.ended) :
    ∃ r', (removeAll ⟨home, r⟩ ids).1 = ⟨home, r'⟩ ∧ Strips d r live grouped ids r' ∧
      ∀ answer ∈ (removeAll ⟨home, r⟩ ids).2, answer = .ok () := by
  induction ids using List.reverseRecOn with
  | nil => exact ⟨r, rfl, ⟨by simpa using h.layout, fun _ _ _ => rfl, rfl, rfl⟩, by simp [removeAll]⟩
  | append_singleton ids id ih =>
    obtain ⟨nodup', _, apart⟩ := List.nodup_append'.mp nodup
    obtain ⟨r', removed, strips, accepted⟩ := ih nodup' fun id hi => sub id (List.mem_append_left _ hi)
    obtain ⟨r'', last, strips'⟩ := remove_ended strips h home (sub id (by simp))
      fun hm => apart hm (by simp)
    refine ⟨r'', ?_, strips', ?_⟩
    · rw [removeAll_append, removed, removeAll, last]
      rfl
    · rw [removeAll_append, removed, removeAll, last]
      intro answer mem
      rcases List.mem_append.mp mem with mem | mem
      · exact accepted answer mem
      · simpa [removeAll] using mem

theorem alike_of_strips (h : r.Sound d live grouped starting) (strips : Strips d r live grouped ids r')
    (perm : ids.Perm r.ended) : r.reclaim.1.Alike r' := by
  obtain ⟨_, slots, lastRunId, allocations, _⟩ := h.layout.reclaim h.unended
  have left : live.filter (fun i => (r.slot i).runId ∉ ids) =
      live.filter fun i => (r.slot i).state ≠ .terminated := by
    refine List.filter_congr fun i hi => decide_eq_decide.mpr (not_congr ?_)
    rw [perm.mem_iff, h.layout.mem_ended]
    constructor
    · rintro ⟨j, hj, ended, same⟩
      exact h.layout.runId_inj j hj i hi same ▸ ended
    · exact fun ended => ⟨i, hi, ended, rfl⟩
  have layout := strips.layout
  rw [left] at layout
  refine h.reclaim.refines.alike layout (fun i hi => ?_) (strips.lastRunId.trans lastRunId.symm)
    (strips.allocations.trans allocations.symm)
  obtain ⟨hl, unended⟩ := List.mem_filter.mp hi
  rw [← left] at hi
  rw [slots i hl (by simpa using unended), strips.slot i hl (by simpa using (List.mem_filter.mp hi).2)]

theorem collects_of_sound (h : r.Sound d live grouped starting) (home : String) :
    Collects ⟨home, r⟩ (collect ⟨home, r⟩).1 (collect ⟨home, r⟩).2 := by
  refine ⟨rfl, ?_, h.clears, ?_, fun ids perm => ?_⟩
  · rw [Registry.ended, List.length_map]
    exact h.count_reclaim
  · simp only [collect, h.reclaim_reclaim]
  · obtain ⟨r', removed, strips, accepted⟩ := removeAll_ended h home
      (perm.nodup_iff.mpr h.layout.nodup_ended) fun id hi => perm.mem_iff.mp hi
    rw [removed]
    exact ⟨accepted, Alike.indistinguishable ⟨rfl, alike_of_strips h strips perm⟩⟩

end Supervisor

namespace ControlThread

/-- Whatever a supervisor is asked, told and answered before: collecting gives back the Terminated
runners and no others, and comes to the same as removing them in any order. -/
theorem collect_of_reaches {capacity buckets : UInt64} {maxRunId : UInt32} {home : String}
    {r : Registry} {t : ControlThread} (created : Registry.create capacity maxRunId buckets = .ok r)
    (h : Reaches (ofSupervisor ⟨home, r⟩) t) :
    t.supervisor.Collects t.supervisor.collect.1 t.supervisor.collect.2 := by
  obtain ⟨d, live, grouped, sound, _⟩ := sound_of_create created h
  exact Supervisor.collects_of_sound sound.registry t.supervisor.home

/-- Of four runners on two chains three have ended: a whole chain, and the last of the other. -/
def retired : ControlThread := (ofSupervisor ⟨"/home", .empty 5 8 2⟩).run (fun _ => none) [
  .request (.start notes), .launched (.ok ⟨⟨7⟩, ⟨7⟩⟩), .request (.start notes),
  .launched (.ok ⟨⟨8⟩, ⟨8⟩⟩), .request (.start notes), .launched (.ok ⟨⟨9⟩, ⟨9⟩⟩),
  .request (.start notes), .launched (.ok ⟨⟨10⟩, ⟨10⟩⟩), .notify ⟨7⟩ (.exited 0),
  .notify ⟨8⟩ (.killed .kill), .notify ⟨9⟩ (.exited 1)]

theorem collect_retired :
    retired.registry.ended = [⟨2⟩, ⟨3⟩, ⟨1⟩] ∧
    (retired.supervisor.collect.1.registry.free,
      (retired.supervisor.removeAll [⟨1⟩, ⟨2⟩, ⟨3⟩]).1.registry.free) =
        ([0, 2, 1, 4], [2, 1, 0, 4]) ∧
    retired.supervisor.Collects retired.supervisor.collect.1 3 :=
  ⟨by decide +kernel, by decide +kernel, collect_of_reaches
    (show Registry.create 5 8 2 = .ok (.empty 5 8 2) from rfl) (reaches_run _ _ _)⟩

end ControlThread
end AppSupervisor
