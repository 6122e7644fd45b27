import AppSupervisor.Proofs.ControlThread.Starts
import AppSupervisor.Proofs.Manifest
import AppSupervisor.Proofs.Registry.Clearance
import AppSupervisor.Proofs.Supervisor.Sequel

namespace AppSupervisor

namespace Registry

/-- A registry is what another one was, but for the run id that was handed out last. -/
structure RolledBack (r r' : Registry) : Prop where
  resembles : r.Resembles r'
  runIdChain : ∀ b, r'.byRunId.chain b = r.byRunId.chain b
  groupChain : ∀ b, r'.byGroup.chain b = r.byGroup.chain b
  slot : ∀ b, ∀ i ∈ r.byRunId.chain b, r'.slot i = r.slot i
  free : r'.free = r.free
  capacity : r'.capacity = r.capacity
  lastRunId : r.unusedRunId? (r.live + 1) r.lastRunId = some r'.lastRunId
  /-- Nothing else will ever tell that there was an allocation. -/
  trace : ∀ home, Supervisor.Indistinguishable ⟨home, r⟩
    ⟨home, { r' with lastRunId := r.lastRunId, allocations := r.allocations }⟩

variable {d : Measures} {r r₁ : Registry} {live grouped starting : List Nat} {i : Nat} {m : Manifest}

theorem Sound.rolledBack (h : r.Sound d live grouped starting) (a : r.Allocates m r₁ i) :
    r.RolledBack (r₁.release i) := by
  obtain ⟨_, hi⟩ := h.layout.free_of_allocates a
  have hg : i ∉ grouped := fun hm => hi (h.layout.grouped_live i hm)
  have layout := (h.layout.allocate a).release List.mem_cons_self hg
  rw [List.filter_cons_of_neg (by simp), Index.filter_ne_eq_self hi] at layout
  have slots : ∀ j ∈ live, (r₁.release i).slot j = r.slot j := by
    intro j hj
    rw [slot_release_of_ne (ne_of_mem_of_not_mem hj hi), h.layout.slot_allocate a hj]
  obtain ⟨r₂, hr₂⟩ : ∃ r₂ : Registry, r₂ =
    { r₁.release i with lastRunId := r.lastRunId, allocations := r.allocations } := ⟨_, rfl⟩
  have reset : r₂.Layout d live grouped := by
    rw [hr₂]
    exact { layout with serial_lt := fun j hj => (slots j hj) ▸ h.layout.serial_lt j hj }
  have alike : r.Alike r₂ := by
    rw [hr₂] at reset ⊢
    exact h.refines.alike reset slots rfl rfl
  refine ⟨?_, fun b => ?_, fun b => ?_, fun b j hj => ?_, a.free.symm,
    layout.slots_size.trans h.layout.slots_size.symm, a.unused, fun home => ?_⟩
  · have seen := alike.resembles
    rw [hr₂] at seen
    exact ⟨seen.toList, seen.lookupRunId, seen.lookupGroup, seen.size⟩
  · rw [layout.byRunId.chain_eq, h.layout.byRunId.chain_eq]
    exact List.filter_congr fun j hj => by rw [slots j hj]
  · rw [layout.byGroup.chain_eq, h.layout.byGroup.chain_eq]
    exact List.filter_congr fun j hj => by rw [slots j (h.layout.grouped_live j hj)]
  · exact slots j (h.layout.byRunId.mem_chain.mp hj).1
  · rw [← hr₂]
    exact Supervisor.Alike.indistinguishable ⟨rfl, alike⟩

end Registry

namespace Supervisor

variable {σ : Type}

/-- The ways in which a start may fail, for a launcher that makes no requests itself, and what is
left of the start. Where the launcher is not called its surroundings stay what they are. -/
structure RollsBack (capacity : Nat) (m : Manifest) (l : Launcher σ) (w : σ) (s : Supervisor) :
    Prop where
  cleared : s.registry.Clears s.registry.reclaim.1
  undescribed : ∀ fault, LaunchDesc.ofManifest m s.home = .error fault →
    s.serve l (.start m) w = (.error (.invalid fault), s, w)
  full : ∀ desc, LaunchDesc.ofManifest m s.home = .ok desc →
    capacity ≤ s.registry.remaining.length →
    s.serve l (.start m) w =
      (.error (.exhausted capacity), { s with registry := s.registry.reclaim.1 }, w)
  refused : ∀ desc, LaunchDesc.ofManifest m s.home = .ok desc →
    s.registry.remaining.length < capacity →
    ∀ cause v, l.launch desc w = (.error cause, v) →
    ∃ id r, (m.value.get? "id").bind Json.string? = some id ∧
      s.serve l (.start m) w = (.error (.launchFailed id cause), { s with registry := r }, v) ∧
      s.registry.reclaim.1.RolledBack r
  accepted : ∀ desc, LaunchDesc.ofManifest m s.home = .ok desc →
    s.registry.remaining.length < capacity →
    ∀ children v, l.launch desc w = (.ok children, v) →
    ∃ id r, s.serve l (.start m) w = (.ok (.started id), { s with registry := r }, v)

theorem rollsBack_of_sound {d : Measures} {s : Supervisor} {live grouped starting : List Nat}
    (h : s.registry.Sound d live grouped starting) (m : Manifest) (l : Launcher σ) (w : σ) :
    s.RollsBack d.capacity m l w := by
  refine ⟨h.clears, fun fault invalid => ?_, fun desc valid full => ?_,
    fun desc valid room cause v refused => ?_, fun desc valid room children v accepted => ?_⟩
  · simp only [serve_def, request, start, invalid]
  · simp only [serve_def, request_start_full h valid full]
  · obtain ⟨r, i, a, asked⟩ := request_start_room h valid room
    refine ⟨desc.tag, r.release i, LaunchDesc.tag_of_ofManifest valid, ?_, h.reclaim.rolledBack a⟩
    simp only [serve_def, asked, refused, launched]
    rfl
  · obtain ⟨r, i, a, asked⟩ := request_start_room h valid room
    refine ⟨⟨r.lastRunId⟩, r.insertGroup i children, ?_⟩
    simp only [serve_def, asked, accepted, launched]
    rfl

end Supervisor

namespace ControlThread

/-- Whatever a supervisor is asked, told and answered before: a start that fails leaves at most a
reclaim and an advanced run id behind. -/
theorem rollback_of_reaches {capacity buckets : UInt64} {maxRunId : UInt32} {home : String}
    {r : Registry} {t : ControlThread} {σ : Type}
    (created : Registry.create capacity maxRunId buckets = .ok r)
    (h : Reaches (ofSupervisor ⟨home, r⟩) t) (m : Manifest) (l : Launcher σ) (w : σ) :
    t.supervisor.RollsBack capacity.toNat m l w := by
  obtain ⟨d, live, grouped, sound, hcapacity, _⟩ := sound_of_create created h
  rw [← hcapacity]
  exact Supervisor.rollsBack_of_sound sound.registry m l w

def refusing : Launcher Nat := ⟨fun _ n => (.error .outOfMemory, n + 1), fun _ _ n => (.ok (), n)⟩

theorem rollback_worn :
    (worn.registry.size = 2 ∧ worn.registry.remaining.length = 1) ∧
    (∃ r, worn.supervisor.serve refusing (.start notes) 0 =
        (.error (.launchFailed "notes" .outOfMemory), ⟨"/home", r⟩, 1) ∧
      worn.registry.reclaim.1.RolledBack r) ∧
    worn.supervisor.RollsBack 2 notes refusing 0 := by
  have room : worn.registry.remaining.length = 1 := by decide +kernel
  have reached : Reaches (ofSupervisor ⟨"/home", .empty 2 4 2⟩) worn := reaches_run _ _ _
  have failing := rollback_of_reaches
    (show Registry.create 2 4 2 = .ok (.empty 2 4 2) from rfl) reached notes refusing 0
  have valid : LaunchDesc.ofManifest notes worn.supervisor.home =
    .ok ⟨"/opt/notes", "notes", "main", "native", "Notes", 8, 6, "/home", []⟩ := rfl
  obtain ⟨id, r, named, served, rolledBack⟩ := failing.refused _ valid
    (room ▸ by decide) .outOfMemory 1 rfl
  have same : id = "notes" := (Option.some.inj named).symm
  rw [same] at served
  exact ⟨⟨by decide +kernel, room⟩, ⟨r, served, rolledBack⟩, failing⟩

end ControlThread
end AppSupervisor
