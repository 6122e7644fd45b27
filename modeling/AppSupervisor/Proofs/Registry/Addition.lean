import AppSupervisor.Proofs.Registry.Allocation
import AppSupervisor.Proofs.Registry.Soundness

namespace AppSupervisor

theorem range_eq_append {b n : Nat} (lt : b < n) :
    List.range n = List.range b ++ b :: List.range' (b + 1) (n - b - 1) := by
  have size : n = b + (n - b - 1 + 1) := by omega
  rw [List.range_eq_range', List.range_eq_range', ← List.range'_succ]
  conv_lhs => rw [size]
  have parts := List.range'_append_1 (s := 0) (m := b) (n := n - b - 1 + 1)
  rw [Nat.zero_add] at parts
  exact parts.symm

namespace Roster

def chain (a : Roster) (bucket : RunId → Nat) (b : Nat) : List Runner :=
  a.runners.filter (bucket ·.runId = b)

variable {a : Roster} {x y : Runner} {buckets b : Nat} {bucket : RunId → Nat}

theorem toList_eq_chains : a.toList buckets bucket =
    (List.range buckets).flatMap (a.chain bucket) := rfl

theorem bucket_of_mem_chain (hy : y ∈ a.chain bucket b) : bucket y.runId = b := by
  simpa using (List.mem_filter.mp hy).2

theorem chain_cons : chain { a with runners := x :: a.runners } bucket b =
    if bucket x.runId = b then x :: a.chain bucket b else a.chain bucket b := by
  simp only [chain, List.filter_cons, decide_eq_true_eq]

theorem toList_cons (bucket : RunId → Nat) (lt : bucket x.runId < buckets) :
    ∃ front back, a.toList buckets bucket = front ++ back ∧
      toList { a with runners := x :: a.runners } buckets bucket = front ++ x :: back ∧
      (∀ y ∈ front, bucket y.runId < bucket x.runId) ∧
      ∀ y ∈ back, bucket x.runId ≤ bucket y.runId := by
  -- The other buckets stay as they are.
  have others : ∀ bs : List Nat, bucket x.runId ∉ bs →
      bs.flatMap (chain { a with runners := x :: a.runners } bucket) =
        bs.flatMap (a.chain bucket) := by
    intro bs apart
    refine List.flatMap_congr fun b hb => ?_
    rw [chain_cons, if_neg fun same : bucket x.runId = b => apart (same ▸ hb)]
  refine ⟨(List.range (bucket x.runId)).flatMap (a.chain bucket),
    a.chain bucket (bucket x.runId) ++
      (List.range' (bucket x.runId + 1) (buckets - bucket x.runId - 1)).flatMap (a.chain bucket),
    ?_, ?_, fun y hy => ?_, fun y hy => ?_⟩
  · rw [toList_eq_chains, range_eq_append lt, List.flatMap_append, List.flatMap_cons]
  · rw [toList_eq_chains, range_eq_append lt, List.flatMap_append, List.flatMap_cons,
      others _ (by simp), others _ (by simp [List.mem_range'_1]), chain_cons, if_pos rfl,
      List.cons_append]
  · obtain ⟨b, hb, hy⟩ := List.mem_flatMap.mp hy
    rw [bucket_of_mem_chain hy]
    exact List.mem_range.mp hb
  · rcases List.mem_append.mp hy with hy | hy
    · exact Nat.le_of_eq (bucket_of_mem_chain hy).symm
    · obtain ⟨b, hb, hy⟩ := List.mem_flatMap.mp hy
      have after := (List.mem_range'_1.mp hb).1
      rw [bucket_of_mem_chain hy]
      omega

end Roster

namespace Registry

def remaining (r : Registry) : List Runner := r.toList.filter (·.state ≠ .terminated)

/-- A registry is what another one was without its Terminated runners, and one runner more. -/
structure Adds (r : Registry) (bucket : RunId → Nat) (x : Runner) (r' : Registry) : Prop where
  fresh : ∀ y ∈ r.remaining, y.runId ≠ x.runId
  listed : ∃ front back, r.remaining = front ++ back ∧ r'.toList = front ++ x :: back ∧
    (∀ y ∈ front, bucket y.runId < bucket x.runId) ∧ ∀ y ∈ back, bucket x.runId ≤ bucket y.runId
  lookupRunId : ∀ id, r'.lookupRunId id =
    if id = x.runId then some x else (r.lookupRunId id).filter (·.state ≠ .terminated)
  lookupGroup : ∀ group, r'.lookupGroup group =
    if group = x.leader then some x else r.lookupGroup group
  size : r'.size = r.remaining.length + 1

variable {d : Measures} {r r' : Registry} {live grouped starting : List Nat} {i : Nat}
  {m : Manifest}

namespace Layout

theorem length_toList (h : r.Layout d live grouped) : r.toList.length = r.live := by
  rw [toList, List.length_map, h.byRunId.toList_perm.length_eq, h.live_eq]

theorem lookupRunId_live (h : r.Layout d live grouped) (id : RunId) :
    r.lookupRunId id = (live.map r.slot).find? (·.runId = id) := h.lookupRunId_eq id

theorem lookupGroup_grouped (h : r.Layout d live grouped) (group : Pid) :
    r.lookupGroup group = (grouped.map r.slot).find? (·.leader = group) := by
  rw [h.lookupGroup_eq, Roster.lookupGroup, h.grouped_roster]

end Layout

namespace Sound

theorem toList_reclaim (h : r.Sound d live grouped starting) :
    r.reclaim.1.toList = r.remaining := by
  have seen := congrArg Prod.fst (h.layout.roster_reclaim h.unended)
  simp only [Roster.reclaim_eq] at seen
  rw [h.reclaim.layout.toList_eq, seen, remaining, h.layout.toList_eq]
  simp only [Roster.toList, List.filter_flatMap, List.filter_filter, Bool.and_comm]

theorem live_reclaim (h : r.Sound d live grouped starting) :
    r.reclaim.1.live = r.remaining.length := by
  rw [← h.reclaim.layout.length_toList, h.toList_reclaim]

theorem lookupRunId_reclaim (h : r.Sound d live grouped starting) (id : RunId) :
    r.reclaim.1.lookupRunId id = (r.lookupRunId id).filter (·.state ≠ .terminated) := by
  refine Option.ext fun s => ?_
  rw [h.reclaim.layout.lookupRunId_eq_some, Option.filter_eq_some_iff, h.layout.lookupRunId_eq_some,
    h.toList_reclaim, remaining, List.mem_filter]
  exact and_right_comm

theorem lookupGroup_reclaim (h : r.Sound d live grouped starting) (group : Pid) :
    r.reclaim.1.lookupGroup group = r.lookupGroup group := by
  obtain ⟨_, slots, _⟩ := h.layout.reclaim h.unended
  have same : grouped.map r.reclaim.1.slot = grouped.map r.slot :=
    List.map_congr_left fun i hi => slots i (h.layout.grouped_live i hi) (h.unended i hi)
  rw [h.reclaim.layout.lookupGroup_grouped, same, h.layout.lookupGroup_grouped]

/-- What reclaiming, an allocation and the answer of its launch come to, one after the other. -/
theorem adds (h : r.Sound d live grouped starting) (a : r.reclaim.1.Allocates m r' i)
    (children : Children) :
    r.Adds (fun id => d.bucket id.val)
      ⟨⟨r'.lastRunId⟩, children.leader, children.app, .running, some m, r.reclaim.1.allocations⟩
      (r'.insertGroup i children) := by
  have left := h.reclaim
  have allocated := left.allocate a
  have launched := (allocated.insertGroup children).layout
  obtain ⟨_, absent⟩ := left.layout.free_of_allocates a
  have own : (r'.insertGroup i children).slot i =
      ⟨⟨r'.lastRunId⟩, children.leader, children.app, .running, some m,
        r.reclaim.1.allocations⟩ := by
    rw [slot_insertGroup, if_pos ⟨rfl, allocated.layout.lt_size (by simp)⟩,
      left.layout.slot_allocated a]
  -- Neither the allocation nor the launch writes the slot of a runner that was there before.
  have others : ∀ is : List Nat, (∀ j ∈ is, j ∈ live ∧ (r.slot j).state ≠ .terminated) →
      is.map (r'.insertGroup i children).slot = is.map r.reclaim.1.slot := by
    intro is sub
    refine List.map_congr_left fun j hj => ?_
    have still : j ∈ live.filter fun j => (r.slot j).state ≠ .terminated := by
      simpa using sub j hj
    rw [slot_insertGroup_of_ne (ne_of_mem_of_not_mem still absent), left.layout.slot_allocate a still]
  have runners := others (live.filter fun j => (r.slot j).state ≠ .terminated) fun j hj => by
    simpa using hj
  have indexed := others grouped fun j hj => ⟨h.layout.grouped_live j hj, h.unended j hj⟩
  refine ⟨?_, ?_, fun id => ?_, fun group => ?_, ?_⟩
  · rw [← h.toList_reclaim]
    exact left.layout.slotOfRunId?_eq_none.mp
      (unusedRunId?_eq_some left.layout.maxRunId_pos a.unused).1
  · have bound : d.bucket r'.lastRunId < d.buckets := d.bucket_lt _
    rw [← h.toList_reclaim, left.layout.toList_eq, launched.toList_eq]
    simp only [roster, List.map_cons, own, runners]
    exact Roster.toList_cons (fun id => d.bucket id.val) bound
  · rw [launched.lookupRunId_live, List.map_cons, own, runners, ← h.lookupRunId_reclaim,
      left.layout.lookupRunId_live]
    by_cases named : id = ⟨r'.lastRunId⟩
    · rw [if_pos named, List.find?_cons_of_pos (by simp [named])]
    · rw [if_neg named, List.find?_cons_of_neg (by simpa using Ne.symm named)]
  · rw [launched.lookupGroup_grouped, List.map_cons, own, indexed, ← h.lookupGroup_reclaim,
      left.layout.lookupGroup_grouped]
    by_cases leads : group = children.leader
    · rw [if_pos leads, List.find?_cons_of_pos (by simp [leads])]
    · rw [if_neg leads, List.find?_cons_of_neg (by simpa using Ne.symm leads)]
  · show r'.live = _
    rw [a.live, h.live_reclaim]

end Sound
end Registry
end AppSupervisor
