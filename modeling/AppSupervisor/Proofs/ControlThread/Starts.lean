import AppSupervisor.Proofs.ControlThread.Soundness
import AppSupervisor.Proofs.Registry.Addition

namespace AppSupervisor

namespace Supervisor

variable {d : Measures} {s : Supervisor} {live grouped starting : List Nat} {m : Manifest}
  {desc : LaunchDesc} (h : s.registry.Sound d live grouped starting)
  (valid : LaunchDesc.ofManifest m s.home = .ok desc)

include h valid

theorem request_start_room (room : s.registry.remaining.length < d.capacity) :
    ∃ r i, s.registry.reclaim.1.Allocates m r i ∧ s.request (.start m) =
      ({ s with registry := r }, .launch desc ⟨i, ⟨r.lastRunId⟩, desc.tag⟩) := by
  -- After the reclaim the count of live runners is that of the remaining ones.
  have left := h.reclaim.layout
  have space : s.registry.reclaim.1.live < d.capacity := by rwa [h.live_reclaim]
  obtain ⟨r, i, allocated⟩ := left.exists_allocates space m
  have a := Registry.allocate_eq_ok allocated
  have named : (r.slot i).runId = ⟨r.lastRunId⟩ := by rw [left.slot_allocated a]
  refine ⟨r, i, a, ?_⟩
  simp only [request, start, valid, allocated, named]

theorem request_start_full (full : d.capacity ≤ s.registry.remaining.length) :
    s.request (.start m) =
      ({ s with registry := s.registry.reclaim.1 }, .done (.error (.exhausted d.capacity))) := by
  have space : d.capacity ≤ s.registry.reclaim.1.live := by rwa [h.live_reclaim]
  have refused := h.reclaim.layout.allocate_full space m
  simp only [request, start, valid, refused]

end Supervisor

namespace ControlThread

open Registry

variable {d : Measures} {t : ControlThread} {live grouped : List Nat} {m : Manifest}
  {desc : LaunchDesc} {groupOf : Pid → Option Pid}

section

variable (h : t.Sound d live grouped) (valid : LaunchDesc.ofManifest m t.supervisor.home = .ok desc)
  (groupOf : Pid → Option Pid)

include h valid

theorem Sound.start_room (room : t.registry.remaining.length < d.capacity) :
    ∃ r i, t.registry.reclaim.1.Allocates m r i ∧ t.step groupOf (.request (.start m)) =
      (t.update r (.launching ⟨i, ⟨r.lastRunId⟩, desc.tag⟩ :: t.waiting), .launching desc) := by
  obtain ⟨r, i, a, asked⟩ := Supervisor.request_start_room h.registry valid room
  refine ⟨r, i, a, ?_⟩
  simp only [step, asked]
  rfl

theorem Sound.start_full (full : d.capacity ≤ t.registry.remaining.length) :
    t.step groupOf (.request (.start m)) =
      (t.update t.registry.reclaim.1 t.waiting, .replied (.error (.exhausted d.capacity))) := by
  simp only [step, Supervisor.request_start_full h.registry valid full]
  rfl

end

/-- A start with a valid descriptor calls the launcher exactly if fewer runners than the capacity
are not Terminated. Once the launch is answered there is one runner more, and the Terminated ones
are gone. -/
theorem start_of_reaches {capacity buckets : UInt64} {maxRunId : UInt32} {home : String}
    {r : Registry} (created : Registry.create capacity maxRunId buckets = .ok r)
    (h : Reaches (ofSupervisor ⟨home, r⟩) t)
    (valid : LaunchDesc.ofManifest m t.supervisor.home = .ok desc) (groupOf : Pid → Option Pid) :
    (t.step groupOf (.request (.start m))).2 =
      (if t.registry.remaining.length < capacity.toNat then .launching desc
        else .replied (.error (.exhausted capacity.toNat))) ∧
    (t.registry.remaining.length < capacity.toNat → ∀ children, ∃ id r',
      (t.step groupOf (.request (.start m))).1.step groupOf (.launched (.ok children)) =
        (t.update r' t.waiting, .replied (.ok (.started id))) ∧
      t.registry.Adds (fun id => id.toNat &&& (buckets.toNat - 1))
        ⟨id, children.leader, children.app, .running, some m, t.registry.allocations⟩ r') := by
  obtain ⟨d, live, grouped, sound, hcapacity, _, hbuckets⟩ := sound_of_create created h
  obtain ⟨_, _, _, allocations, _⟩ := sound.registry.layout.reclaim sound.registry.unended
  rw [← hcapacity, ← hbuckets]
  by_cases room : t.registry.remaining.length < d.capacity
  · obtain ⟨r', i, a, called⟩ := sound.start_room valid groupOf room
    rw [called, if_pos room]
    refine ⟨rfl, fun _ children => ⟨⟨r'.lastRunId⟩, r'.insertGroup i children,
      step_launched (waiting_update t r' _) children, ?_⟩⟩
    rw [← allocations]
    exact sound.registry.adds a children
  · rw [sound.start_full valid groupOf (by omega), if_neg room]
    exact ⟨rfl, fun left => absurd left room⟩

/-- Both slots are in use: the older runner is Running and the newer one, with the same leader, has
ended. A launch that failed came in between. -/
def worn : ControlThread := (ofSupervisor ⟨"/home", .empty 2 4 2⟩).run (fun _ => none) [
  .request (.start notes), .launched (.ok ⟨⟨7⟩, ⟨7⟩⟩), .request (.start notes),
  .launched (.error .outOfMemory), .request (.start notes), .launched (.ok ⟨⟨7⟩, ⟨8⟩⟩),
  .notify ⟨7⟩ (.exited 0)]

theorem start_worn :
    let called := worn.step (fun _ => none) (.request (.start notes))
    (worn.registry.size = 2 ∧ worn.registry.remaining.length = 1) ∧
    called.2 = .launching ⟨"/opt/notes", "notes", "main", "native", "Notes", 8, 6, "/home", []⟩ ∧
    ∃ id r', called.1.step (fun _ => none) (.launched (.ok ⟨⟨7⟩, ⟨9⟩⟩)) =
        (worn.update r' [], .replied (.ok (.started id))) ∧
      worn.registry.Adds (fun id => id.toNat &&& 1)
        ⟨id, ⟨7⟩, ⟨9⟩, .running, some notes, 3⟩ r' := by
  have room : worn.registry.remaining.length = 1 := by decide +kernel
  have left : worn.registry.remaining.length < (2 : UInt64).toNat := room ▸ by decide
  have reached : Reaches (ofSupervisor ⟨"/home", .empty 2 4 2⟩) worn := reaches_run _ _ _
  have valid : LaunchDesc.ofManifest notes worn.supervisor.home =
    .ok ⟨"/opt/notes", "notes", "main", "native", "Notes", 8, 6, "/home", []⟩ := rfl
  obtain ⟨called, added⟩ := start_of_reaches
    (show Registry.create 2 4 2 = .ok (.empty 2 4 2) from rfl) reached valid fun _ => none
  rw [if_pos left] at called
  exact ⟨⟨by decide +kernel, room⟩, called, added left ⟨⟨7⟩, ⟨9⟩⟩⟩

end ControlThread
end AppSupervisor
