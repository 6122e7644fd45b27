import AppSupervisor.Proofs.ControlThread.Soundness

namespace AppSupervisor

/-- The free slots and the chains of run ids share out the arena. -/
structure Registry.Partition (r : Registry) (capacity : Nat) (maxRunId : UInt32) (buckets : Nat) :
    Prop where
  arena : r.capacity = capacity
  walk : ∀ b, r.byRunId.walk? capacity (r.byRunId.head b) = some (r.byRunId.chain b)
  chain_lt : ∀ b, ∀ i ∈ r.byRunId.chain b, i < capacity
  free : ∀ i ∈ r.free, i < capacity ∧ r.free.count i = 1 ∧ ∀ b, i ∉ r.byRunId.chain b
  /-- Any other slot is once on the chain of its run id, and on no other. -/
  inUse : ∀ i < capacity, i ∉ r.free → ∀ b, (r.byRunId.chain b).count i =
    if b = (r.slot i).runId.toNat &&& (buckets - 1) then 1 else 0
  runId_inj : ∀ i < capacity, i ∉ r.free → ∀ j < capacity, j ∉ r.free →
    (r.slot i).runId = (r.slot j).runId → i = j
  runId_range : ∀ i < capacity, i ∉ r.free →
    1 ≤ (r.slot i).runId.toNat ∧ (r.slot i).runId.toNat ≤ maxRunId.toNat
  live : r.live = ((List.range capacity).filter (· ∉ r.free)).length
  length_free : r.live + r.free.length = capacity
  listed : r.toList.Perm (((List.range capacity).filter (· ∉ r.free)).map r.slot)
  size : r.size = r.toList.length
  size_le : r.size ≤ capacity

/-- The chains of process groups hold the runners with a process and no others. -/
structure Registry.Membership (r : Registry) (capacity buckets : Nat) : Prop where
  walk : ∀ b, r.byGroup.walk? capacity (r.byGroup.head b) = some (r.byGroup.chain b)
  chain_lt : ∀ b, ∀ i ∈ r.byGroup.chain b, i < capacity
  free : ∀ i ∈ r.free, ∀ b, i ∉ r.byGroup.chain b
  /-- A runner with a process is once on the chain of its leader, and on no other; a Starting or
  Terminated one is on none. -/
  inUse : ∀ i < capacity, i ∉ r.free → ∀ b, (r.byGroup.chain b).count i =
    if (r.slot i).state.hasProcess ∧ b = (r.slot i).leader.val.toUInt32.toNat &&& (buckets - 1)
    then 1 else 0
  found : ∀ group s, r.lookupGroup group = some s →
    s.leader = group ∧ s.state.hasProcess ∧ ∃ i < capacity, i ∉ r.free ∧ r.slot i = s

variable {d : Measures} {r : Registry} {live grouped starting : List Nat} {i : Nat}

theorem Registry.Layout.live_perm (h : r.Layout d live grouped) :
    live.Perm ((List.range d.capacity).filter (· ∉ r.free)) := by
  refine (List.perm_ext_iff_of_nodup h.live_nodup (List.nodup_range.filter _)).mpr fun i => ?_
  rw [h.mem_live, List.mem_filter, List.mem_range, decide_eq_true_eq]

theorem Registry.Layout.partitions (h : r.Layout d live grouped) :
    r.Partition d.capacity d.maxRunId d.buckets where
  arena := h.slots_size
  walk b := by
    rw [← h.runIdNext_size, h.byRunId.chain_eq]
    exact h.byRunId.walk?_head b
  chain_lt b i hi := h.lt_of_mem (h.byRunId.mem_chain.mp hi).1
  free i hi := by
    have nodup : r.free.Nodup := (List.nodup_append'.mp h.all_nodup).2.1
    refine ⟨h.lt_iff.mpr (Or.inr hi), List.count_eq_one_of_mem nodup hi, fun b hb => ?_⟩
    exact h.not_mem_live hi (h.byRunId.mem_chain.mp hb).1
  inUse i lt hf b := by
    have hi := h.mem_live.mpr ⟨lt, hf⟩
    rw [h.byRunId.count_chain]
    simp only [hi, true_and, eq_comm (b := b)]
    rfl
  runId_inj i lt hi j lt' hj :=
    h.runId_inj i (h.mem_live.mpr ⟨lt, hi⟩) j (h.mem_live.mpr ⟨lt', hj⟩)
  runId_range i lt hi := h.runId_range i (h.mem_live.mpr ⟨lt, hi⟩)
  live := h.live_eq.trans h.live_perm.length_eq
  length_free := h.live_eq ▸ h.length_add
  listed := (h.byRunId.toList_perm.trans h.live_perm).map r.slot
  size := by
    rw [Registry.size, Registry.toList, List.length_map, h.live_eq,
      h.byRunId.toList_perm.length_eq]
  size_le := by
    have := h.length_add
    rw [Registry.size, h.live_eq]
    omega

theorem Registry.Sound.memberships (h : r.Sound d live grouped starting) :
    r.Membership d.capacity d.buckets where
  walk b := by
    rw [← h.layout.groupNext_size, h.layout.byGroup.chain_eq]
    exact h.layout.byGroup.walk?_head b
  chain_lt b i hi := h.layout.lt_of_mem (h.layout.grouped_live i (h.layout.byGroup.mem_chain.mp hi).1)
  free i hi b hb :=
    h.layout.not_mem_live hi (h.layout.grouped_live i (h.layout.byGroup.mem_chain.mp hb).1)
  inUse i lt hf b := by
    have hi := h.layout.mem_live.mpr ⟨lt, hf⟩
    rw [h.layout.byGroup.count_chain]
    simp only [h.mem_grouped i hi, eq_comm (b := b)]
    rfl
  found group s hs := by
    obtain ⟨i, hi, rfl⟩ := Option.map_eq_some_iff.mp hs
    obtain ⟨hg, leads⟩ := h.layout.mem_of_slotOfGroup? hi
    obtain ⟨lt, hf⟩ := h.layout.mem_live.mp (h.layout.grouped_live i hg)
    exact ⟨leads, h.hasProcess hg, i, lt, hf, rfl⟩

namespace ControlThread

variable {capacity buckets : UInt64} {maxRunId : UInt32} {home : String} {t : ControlThread}

/-- Whatever a supervisor is asked, told and answered, and however deep requests are nested in the
launcher's calls, its free slots and chains of run ids share out the arena. -/
theorem partition_of_reaches (created : Registry.create capacity maxRunId buckets = .ok r)
    (h : Reaches (ofSupervisor ⟨home, r⟩) t) :
    t.registry.Partition capacity.toNat maxRunId buckets.toNat := by
  obtain ⟨d, live, grouped, sound, hcapacity, hmax, hbuckets⟩ := sound_of_create created h
  rw [← hcapacity, ← hmax, ← hbuckets]
  exact sound.registry.layout.partitions

theorem partition_nested : ((nestedTo 10).registry.byRunId.toList, (nestedTo 10).registry.free) =
    ([1, 2], [0]) ∧ (nestedTo 10).registry.Partition 3 4 2 :=
  ⟨by decide +kernel, partition_of_reaches
    (show Registry.create 3 4 2 = .ok (.empty 3 4 2) from rfl) (reaches_run _ _ _)⟩

/-- In the same states exactly the runners that have a process are indexed by process group. -/
theorem membership_of_reaches (created : Registry.create capacity maxRunId buckets = .ok r)
    (h : Reaches (ofSupervisor ⟨home, r⟩) t) :
    t.registry.Membership capacity.toNat buckets.toNat := by
  obtain ⟨d, live, grouped, sound, hcapacity, _, hbuckets⟩ := sound_of_create created h
  rw [← hcapacity, ← hbuckets]
  exact sound.registry.memberships

theorem membership_nested : (nestedTo 6).registry.byGroup.toList = [1, 2] ∧
    (nestedTo 6).registry.Membership 3 2 :=
  ⟨by decide +kernel, membership_of_reaches
    (show Registry.create 3 4 2 = .ok (.empty 3 4 2) from rfl) (reaches_run _ _ _)⟩

end ControlThread
end AppSupervisor
