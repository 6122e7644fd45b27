import AppSupervisor.Proofs.Registry.Allocation
import AppSupervisor.Proofs.Registry.Reaping

namespace AppSupervisor.Registry

/-- What the operations of a registry rely on, but for those that walk along all chains. -/
structure InBounds (r : Registry) (capacity : Nat) : Prop where
  slots_size : r.slots.size = capacity
  runIdNext_size : r.byRunId.next.size = capacity
  groupNext_size : r.byGroup.next.size = capacity
  linked : capacity < 4294967295
  runIdBucket_lt : ∀ id, r.runIdBucket id < r.byRunId.heads.size
  groupBucket_lt : ∀ pid, r.groupBucket pid < r.byGroup.heads.size
  /-- Whatever is looked up, the search along the chain ends with the answer. -/
  findsRunId : ∀ id, r.byRunId.Finds (fun i => (r.slot i).runId = id)
    (r.byRunId.head (r.runIdBucket id)) (r.slotOfRunId? id)
  findsGroup : ∀ group, r.byGroup.Finds (fun i => (r.slot i).leader = group)
    (r.byGroup.head (r.groupBucket group)) (r.slotOfGroup? group)
  usedRunId : ∀ id i, r.slotOfRunId? id = some i → i < capacity ∧ i ∉ r.free
  usedGroup : ∀ group i, r.slotOfGroup? group = some i → i < capacity ∧ i ∉ r.free
  erasesGroup : ∀ i < capacity, r.byGroup.Erases (r.groupBucket (r.slot i).leader) i
  releases : ∀ i < capacity, r.byRunId.Erases (r.runIdBucket (r.slot i).runId) i
  live_pos : ∀ i < capacity, i ∉ r.free → 0 < r.live
  listsRunId : ∀ b < r.byRunId.heads.size, r.byRunId.Finds (fun _ => False) (r.byRunId.head b) none
  listsGroup : ∀ b < r.byGroup.heads.size, r.byGroup.Finds (fun _ => False) (r.byGroup.head b) none
  free_lt : ∀ i ∈ r.free, i < capacity
  free_ne_nil : r.live < capacity → r.free ≠ []
  ring : 0 < r.maxRunId.toNat ∧
    ∀ last, (nextRunId r.maxRunId last).toNat = last.toNat % r.maxRunId.toNat + 1
  search : r.live < capacity → ∃ k ≤ r.live,
    r.slotOfRunId? ⟨candidate r.maxRunId r.lastRunId k⟩ = none ∧
    (∀ j < k, r.slotOfRunId? ⟨candidate r.maxRunId r.lastRunId j⟩ ≠ none) ∧
    r.unusedRunId? (r.live + 1) r.lastRunId = some (candidate r.maxRunId r.lastRunId k)
  allocates : r.live < capacity → ∀ m, ∃ r' i, r.allocate m = .ok (r', i)

/-- A registry stays in bounds whatever status changes come in. -/
def Steady (r : Registry) (capacity : Nat) : Prop :=
  ∀ reports, (r.notifyAll reports).InBounds capacity

/-- What is done at a slot when runners are reclaimed, with the status changes that come in then. -/
def reclaimAmid (reports : Nat → List Report) (s : Registry × Nat) (i : Nat) : Registry × Nat :=
  ((reclaimAt s i).1.notifyAll (reports i), (reclaimAt s i).2)

/-- All operations on a registry end, and find what they need on their way. -/
structure Safe (r : Registry) (capacity : Nat) : Prop where
  steady : r.Steady capacity
  /-- Only runners that are counted are reclaimed, whatever status changes come in meanwhile. -/
  reclaims : ∀ reports : Nat → List Report, ∃ s,
    Index.EndsAll (fun s => s.1.byRunId) (fun s i => s.1.Steady capacity ∧ i ∉ s.1.free)
      (reclaimAmid reports) (List.range r.byRunId.heads.size) (r, 0) s ∧
    s.1.Steady capacity ∧ ((∀ i, reports i = []) → s = r.reclaim)
  reaps : ∀ (groupOf : Pid → Option Pid) (pending : Pending),
    Index.EndsAll (fun s => s.registry.byGroup) (fun s _ => s.registry.Steady capacity)
      (fun s i => s.collect groupOf (s.registry.slot i).leader) (List.range r.byGroup.heads.size)
      ⟨r, pending, 0⟩ (r.reap groupOf pending) ∧
    (r.reap groupOf pending).registry.Steady capacity
  interrupted : ∀ (reports : Nat → List Report) (b : Nat), ∃ r',
    Index.Ends byGroup (fun r _ => r.Steady capacity) (fun r i => r.notifyAll (reports i))
      (r.byGroup.head b) r r'

variable {d : Measures} {r : Registry} {a : Roster} {live grouped is : List Nat} {i : Nat}
  {l : Link} {s : Registry × Nat}

theorem Layout.inBounds (h : r.Layout d live grouped) (linked : d.capacity < 4294967295) :
    r.InBounds d.capacity where
  slots_size := h.slots_size
  runIdNext_size := h.runIdNext_size
  groupNext_size := h.groupNext_size
  linked := linked
  runIdBucket_lt id := by
    rw [h.runIdBucket_eq, h.runIdHeads_size]
    exact d.bucket_lt _
  groupBucket_lt pid := by
    rw [h.groupBucket_eq, h.groupHeads_size]
    exact d.bucket_lt _
  findsRunId id := h.byRunId.finds _
  findsGroup group := h.byGroup.finds _
  usedRunId id i found := h.mem_live.mp (h.slotOfRunId?_eq_some.mp found).1
  usedGroup group i found := h.mem_live.mp (h.grouped_live i (h.mem_of_slotOfGroup? found).1)
  erasesGroup i _ := h.byGroup.erases _ i
  releases i _ := h.byRunId.erases _ i
  live_pos i lt hf := h.live_eq ▸ List.length_pos_of_mem (h.mem_live.mpr ⟨lt, hf⟩)
  listsRunId b _ := by
    have search : r.byRunId.Finds (fun _ => False) (r.byRunId.head b) _ := h.byRunId.finds b
    rwa [List.find?_eq_none.mpr (by simp)] at search
  listsGroup b _ := by
    have search : r.byGroup.Finds (fun _ => False) (r.byGroup.head b) _ := h.byGroup.finds b
    rwa [List.find?_eq_none.mpr (by simp)] at search
  free_lt i hi := h.lt_iff.mpr (Or.inr hi)
  free_ne_nil room := by
    obtain ⟨i, free, hfree⟩ := h.exists_free room
    rw [hfree]
    exact List.cons_ne_nil i free
  ring := ⟨h.maxRunId_pos, toNat_nextRunId h.maxRunId_pos⟩
  search room := by
    obtain ⟨id, found⟩ := h.exists_unused room
    obtain ⟨k, hk, rfl, unused, before⟩ := unusedRunId?_eq_some_iff.mp found
    exact ⟨k, Nat.le_of_lt_succ hk, unused, before, found⟩
  allocates room := h.exists_allocates room

theorem Layout.notifyAll (h : r.Layout d live grouped) (reports : List Report) :
    ∃ grouped', (r.notifyAll reports).Layout d live grouped' := by
  obtain ⟨grouped', _, layout, _⟩ := h.roster_relay reports
  exact ⟨grouped', relay_fst r reports ▸ layout⟩

theorem Layout.steady (h : r.Layout d live grouped) (linked : d.capacity < 4294967295) :
    r.Steady d.capacity := by
  intro reports
  obtain ⟨_, layout⟩ := h.notifyAll reports
  exact layout.inBounds linked

theorem byRunId_hear (r : Registry) (report : Report) : (r.hear report).byRunId = r.byRunId := by
  unfold hear
  cases found : r.slotOfPid? report.groupOf report.pid with
  | none => rw [notify_eq_self found]
  | some i =>
    rw [notify_eq found]
    split <;> rfl

theorem byRunId_notifyAll (r : Registry) (reports : List Report) :
    (r.notifyAll reports).byRunId = r.byRunId := by
  induction reports generalizing r with
  | nil => rfl
  | cons report reports ih => exact (ih _).trans (byRunId_hear r report)

theorem leads_hear (h : r.byGroup.Leads l is) (nodup : is.Nodup) (report : Report) :
    ∃ js, js.Sublist is ∧ (r.hear report).byGroup.Leads l js := by
  unfold hear
  cases found : r.slotOfPid? report.groupOf report.pid with
  | none =>
    rw [notify_eq_self found]
    exact ⟨is, .refl is, h⟩
  | some i =>
    rw [notify_eq found]
    split
    next =>
      show ∃ js, js.Sublist is ∧ (r.eraseGroup i).byGroup.Leads l js
      unfold eraseGroup
      cases erased : r.byGroup.erase? (r.groupBucket (r.slot i).leader) i with
      | none => exact ⟨is, .refl is, h⟩
      | some y => exact h.erase? nodup erased
    next => exact ⟨is, .refl is, h⟩

theorem leads_notifyAll (h : r.byGroup.Leads l is) (nodup : is.Nodup) (reports : List Report) :
    ∃ js, js.Sublist is ∧ (r.notifyAll reports).byGroup.Leads l js := by
  induction reports generalizing r is with
  | nil => exact ⟨is, .refl is, h⟩
  | cons report reports ih =>
    obtain ⟨js, part, leads⟩ := leads_hear h nodup report
    obtain ⟨ks, part', leads'⟩ := ih leads (nodup.sublist part)
    exact ⟨ks, part'.trans part, leads'⟩

/-- The slots ahead of a walk that reclaims are in use, and each comes once. -/
structure Reclaiming (d : Measures) (s : Registry × Nat) (is : List Nat) : Prop where
  nodup : is.Nodup
  refines : ∃ live grouped a, s.1.Refines d live grouped a ∧ ∀ i ∈ is, i ∈ live

theorem Reclaiming.next (h : Reclaiming d s (i :: is)) (reports : Nat → List Report) :
    Reclaiming d (reclaimAmid reports s i) is := by
  obtain ⟨fresh, nodup⟩ := List.nodup_cons.mp h.nodup
  obtain ⟨live, grouped, a, refines, listed⟩ := h.refines
  have reclaimed : ∃ live' a', (reclaimAt s i).1.Refines d live' grouped a' ∧
      ∀ j ∈ is, j ∈ live' := by
    unfold reclaimAt
    split
    next ended =>
      have hg : i ∉ grouped := fun hm => RunState.ne_terminated (refines.process i hm) ended
      refine ⟨_, _, refines.release (listed i (by simp)) hg, fun j hj => ?_⟩
      have hne : j ≠ i := ne_of_mem_of_not_mem hj fresh
      exact List.mem_filter.mpr ⟨listed j (List.mem_cons_of_mem i hj), by simpa using hne⟩
    next => exact ⟨live, a, refines, fun j hj => listed j (List.mem_cons_of_mem i hj)⟩
  obtain ⟨live', a', refines', listed'⟩ := reclaimed
  obtain ⟨grouped', a'', later⟩ := refines'.notifyAll (reports i)
  exact ⟨nodup, live', grouped', a'', later, listed'⟩

theorem detaches_reclaimAmid (reports : Nat → List Report) (s : Registry × Nat) (i : Nat) :
    s.1.byRunId.Detaches (reclaimAmid reports s i).1.byRunId i := by
  rw [reclaimAmid, byRunId_notifyAll]
  exact detaches_reclaimAt s i

theorem reclaimAmid_none {reports : Nat → List Report} (none : ∀ i, reports i = []) :
    reclaimAmid reports = reclaimAt := by
  funext s i
  rw [reclaimAmid, none i]
  rfl

theorem Refines.reclaims (h : r.Refines d live grouped a) (linked : d.capacity < 4294967295)
    (reports : Nat → List Report) : ∃ s,
      Index.EndsAll (fun s => s.1.byRunId) (fun s i => s.1.Steady d.capacity ∧ i ∉ s.1.free)
        (reclaimAmid reports) (List.range r.byRunId.heads.size) (r, 0) s ∧
      s.1.Steady d.capacity ∧ ((∀ i, reports i = []) → s = r.reclaim) := by
  have listed := h.layout.byRunId.toList_perm
  have known : Reclaiming d (r, 0) r.byRunId.toList :=
    ⟨listed.nodup_iff.mpr h.layout.live_nodup, live, grouped, a, h, fun i => listed.mem_iff.mp⟩
  have step : ∀ s i is, Reclaiming d s (i :: is) → Reclaiming d (reclaimAmid reports s i) is ∧
      s.1.byRunId.Detaches (reclaimAmid reports s i).1.byRunId i :=
    fun s i is known => ⟨known.next reports, detaches_reclaimAmid reports s i⟩
  have able : ∀ s i is, Reclaiming d s (i :: is) → s.1.Steady d.capacity ∧ i ∉ s.1.free := by
    intro s i is known
    obtain ⟨live, grouped, _, refines, listed⟩ := known.refines
    exact ⟨refines.layout.steady linked, (refines.layout.mem_live.mp (listed i (by simp))).2⟩
  obtain ⟨_, _, _, last, _⟩ := (h.layout.byRunId.visitAll_keeps step known).refines
  refine ⟨_, h.layout.byRunId.endsAll step able known, last.layout.steady linked, fun none => ?_⟩
  rw [reclaimAmid_none none, reclaim_eq_visitAll]

def Underway (d : Measures) (live : List Nat) (s : Reaping) (is : List Nat) : Prop :=
  ∃ grouped, Ahead d live grouped s is

namespace Layout

variable (h : r.Layout d live grouped) (linked : d.capacity < 4294967295)

include h linked

theorem reaps (groupOf : Pid → Option Pid) (pending : Pending) :
    Index.EndsAll (fun s => s.registry.byGroup) (fun s _ => s.registry.Steady d.capacity)
        (fun s i => s.collect groupOf (s.registry.slot i).leader) (List.range r.byGroup.heads.size)
        ⟨r, pending, 0⟩ (r.reap groupOf pending) ∧
      (r.reap groupOf pending).registry.Steady d.capacity := by
  have step : ∀ s i is, Underway d live s (i :: is) →
      Underway d live (s.collect groupOf (s.registry.slot i).leader) is ∧
      s.registry.byGroup.Detaches (s.collect groupOf (s.registry.slot i).leader).registry.byGroup i :=
    fun s i is ⟨_, ahead⟩ => ahead.collect groupOf
  have bounds : ∀ s is, Underway d live s is → s.registry.Steady d.capacity :=
    fun s is ⟨_, ahead⟩ => ahead.layout.steady linked
  have known : Underway d live ⟨r, pending, 0⟩ r.byGroup.toList := ⟨grouped, ahead_toList h pending⟩
  have last := Index.Holds.visitAll_keeps (s := (⟨r, pending, 0⟩ : Reaping)) step h.byGroup known
  exact ⟨Index.Holds.endsAll step (fun s i is => bounds s (i :: is)) h.byGroup known, bounds _ _ last⟩

theorem interrupted (reports : Nat → List Report) (b : Nat) : ∃ r',
    Index.Ends Registry.byGroup (fun r _ => r.Steady d.capacity) (fun r i => r.notifyAll (reports i))
      (r.byGroup.head b) r r' := by
  refine (h.byGroup.leads_chain b).ends (Q := fun r => ∃ grouped, r.Layout d live grouped)
    (h.byGroup.nodup_chain b) ⟨grouped, h⟩ (fun r i l is known leads nodup => ?_)
    fun r i ⟨_, layout⟩ => layout.steady linked
  obtain ⟨_, layout⟩ := known
  exact ⟨layout.notifyAll (reports i), leads_notifyAll leads nodup (reports i)⟩

end Layout

theorem Refines.safe (h : r.Refines d live grouped a) (linked : d.capacity < 4294967295) :
    r.Safe d.capacity :=
  ⟨h.layout.steady linked, h.reclaims linked, h.layout.reaps linked, h.layout.interrupted linked⟩

end AppSupervisor.Registry
