import AppSupervisor.Proofs.ChildEvent
import AppSupervisor.Proofs.Registry.Relay

namespace AppSupervisor.Registry

open ChildEvent (due)

def afterDue (events : List ChildEvent) (state : RunState) : RunState :=
  (due events).foldl (fun state event => afterEvent event state) state

namespace Pending

def events (p : Pending) (pid : Pid) : List ChildEvent :=
  WaitStatus.events ((p.queue pid).getD [])

/-- The changes that a leader is asked for. -/
def due (p : Pending) (leader : Pid) : List ChildEvent := ChildEvent.due (p.events leader)

def reports (groupOf : Pid → Option Pid) (p : Pending) (leader : Pid) : List Report :=
  (p.due leader).map (Report.mk groupOf leader)

/-- What is pending after some processes were asked. -/
def collected (p : Pending) (asked : List Pid) : Pending where
  queue pid := if pid ∈ asked
    then (p.queue pid).map (List.drop (p.due pid).length) else p.queue pid
  own pid left held status mem := by
    split at held
    next =>
      obtain ⟨statuses, queue, rfl⟩ := Option.map_eq_some_iff.mp held
      exact p.own pid statuses queue status (List.mem_of_mem_drop mem)
    next => exact p.own pid left held status mem

end Pending

def leaders (r : Registry) : List Pid := r.byGroup.toList.map fun i => (r.slot i).leader

variable {d : Measures} {r r' : Registry} {live grouped starting is : List Nat} {i j : Nat}
  {groupOf : Pid → Option Pid} {leader pid : Pid} {event : ChildEvent} {events : List ChildEvent}
  {pending : Pending} {s : Reaping} {state : RunState} {status : WaitStatus}
  {later : List WaitStatus} {asked asked' : List Pid}

theorem afterDue_lasting (lasting : ¬event.isTerminal) :
    afterDue (event :: events) state = afterDue events (afterEvent event state) := by
  rw [afterDue, due_lasting lasting, List.foldl_cons, afterDue]

@[simp] theorem relay_nil (r : Registry) : r.relay [] = (r, []) := rfl

theorem relay_append (r : Registry) (reports more : List Report) :
    r.relay (reports ++ more) = (((r.relay reports).1.relay more).1,
      (r.relay reports).2 ++ ((r.relay reports).1.relay more).2) := by
  induction reports generalizing r with
  | nil => rfl
  | cons report reports ih => simp only [List.cons_append, relay, ih]

namespace Pending

theorem ext {p q : Pending} (h : ∀ pid, p.queue pid = q.queue pid) : p = q := by
  obtain ⟨queue, _⟩ := p
  obtain ⟨queue', _⟩ := q
  obtain rfl : queue = queue' := funext h
  rfl

section

variable (p : Pending)

theorem events_eq_nil (h : p.queue pid = .none ∨ p.queue pid = some []) : p.events pid = [] := by
  rcases h with h | h <;> rw [events, h] <;> rfl

theorem queue_collected (mem : pid ∈ asked) : (p.collected asked).queue pid =
    (p.queue pid).map (List.drop (p.due pid).length) := if_pos mem

theorem queue_collected_of_not_mem (unasked : pid ∉ asked) :
    (p.collected asked).queue pid = p.queue pid := if_neg unasked

theorem events_collected (unasked : pid ∉ asked) :
    (p.collected asked).events pid = p.events pid := by
  rw [events, queue_collected_of_not_mem p unasked, events]

theorem due_collected (unasked : pid ∉ asked) : (p.collected asked).due pid = p.due pid := by
  rw [due, p.events_collected unasked, due]

theorem collected_collected (unasked : leader ∉ asked) :
    (p.collected [leader]).collected asked = p.collected (leader :: asked) := by
  refine ext fun pid => ?_
  by_cases same : pid = leader
  · subst same
    rw [queue_collected_of_not_mem _ unasked, queue_collected _ (by simp), queue_collected _ (by simp)]
  · have apart : pid ∉ [leader] := by simpa using same
    by_cases mem : pid ∈ asked
    · rw [queue_collected _ mem, queue_collected _ (List.mem_cons_of_mem _ mem),
        queue_collected_of_not_mem _ apart, due_collected _ apart]
    · rw [queue_collected_of_not_mem _ mem, queue_collected_of_not_mem _ apart,
        queue_collected_of_not_mem _ (by simp [same, mem])]

theorem collected_of_nil (none : p.events leader = []) : p.collected [leader] = p := by
  refine ext fun pid => ?_
  by_cases same : pid = leader
  · subst same
    rw [queue_collected _ (by simp), due, none]
    exact Option.map_id'
  · exact queue_collected_of_not_mem _ (by simpa using same)

theorem events_collected_of_lasting (lasting : ¬(p.events leader).any ChildEvent.isTerminal) :
    (p.collected [leader]).events leader = [] := by
  rw [events, queue_collected _ (by simp), due, due_of_lasting lasting]
  cases held : p.queue leader with
  | none => rfl
  | some statuses =>
    rw [events, held, Option.getD_some,
      WaitStatus.length_events fun status hs => p.own leader _ held status hs]
    simp [WaitStatus.events]

theorem collected_nil : p.collected [] = p :=
  ext fun _ => queue_collected_of_not_mem p List.not_mem_nil

end

theorem events_set (p : Pending) (own : ∀ status ∈ later, status.pid? = some pid) :
    (p.set pid later own).events pid = WaitStatus.events later := by
  simp [events, set]

section

variable {p : Pending} (held : p.queue pid = some (status :: later)) (tells : status.Tells pid event)
  (own : ∀ status ∈ later, status.pid? = some pid)

include held tells

theorem events_next : p.events pid = event :: WaitStatus.events later := by
  rw [events, held, Option.getD_some, WaitStatus.events_cons tells]

theorem collected_last (terminal : event.isTerminal) : p.collected [pid] = p.set pid later own := by
  refine ext fun q => ?_
  by_cases same : q = pid
  · subst same
    rw [queue_collected _ (by simp), held, due, events_next held tells, due_terminal terminal]
    exact (if_pos rfl).symm
  · rw [queue_collected_of_not_mem _ (by simpa using same)]
    exact (if_neg same).symm

theorem collected_next (lasting : ¬event.isTerminal) :
    p.collected [pid] = (p.set pid later own).collected [pid] := by
  refine ext fun q => ?_
  by_cases same : q = pid
  · subst same
    have first : (p.set q later own).queue q = some later := if_pos rfl
    rw [queue_collected _ (by simp), queue_collected _ (by simp), held, first,
      due, events_next held tells, due_lasting lasting, due, events_set]
    rfl
  · have apart : q ∉ [pid] := by simpa using same
    rw [queue_collected_of_not_mem _ apart, queue_collected_of_not_mem _ apart]
    exact (if_neg same).symm

end

end Pending

namespace Reaping

def after (groupOf : Pid → Option Pid) (s : Reaping) (leader : Pid) : Reaping where
  registry := (s.registry.relay (s.pending.reports groupOf leader)).1
  pending := s.pending.collected [leader]
  applied := s.applied + (s.registry.relay (s.pending.reports groupOf leader)).2.count true

theorem collect_idle (idle : s.pending.queue leader = none ∨ s.pending.queue leader = some []) :
    s.collect groupOf leader = s.after groupOf leader := by
  have none := s.pending.events_eq_nil idle
  rw [collect_self idle, after, s.pending.collected_of_nil none, Pending.reports, Pending.due, none]
  rfl

theorem collect_eq (s : Reaping) : s.collect groupOf leader = s.after groupOf leader := by
  cases held : s.pending.queue leader with
  | none => exact collect_idle (.inl held)
  | some statuses =>
    -- All statuses of a child tell of a change, so the loop ends with the queue or at a terminal one.
    induction statuses generalizing s with
    | nil => exact collect_idle (.inr held)
    | cons status later ih =>
      have own := fun s' hs => s.pending.own _ _ held s' (List.mem_cons_of_mem status hs)
      obtain ⟨event, tells⟩ := WaitStatus.exists_tells (s.pending.own _ _ held status (by simp))
      have events := Pending.events_next held tells
      rw [collect_next held (WaitStatus.change?_eq_some.mpr tells)]
      by_cases terminal : event.isTerminal
      · rw [if_pos terminal, after, Pending.collected_last held tells own terminal, Pending.reports,
          Pending.due, events, due_terminal terminal]
        cases owned : (s.registry.notify groupOf leader event).2 <;> simp [relay, owned]
      · rw [if_neg terminal, ih _ (if_pos rfl), after, after,
          Pending.collected_next held tells own terminal, Pending.reports, Pending.reports,
          Pending.due, Pending.due, events, due_lasting terminal, Pending.events_set, List.map_cons,
          relay]
        cases owned : (s.registry.notify groupOf leader event).2 <;> simp [owned]
        omega

end Reaping

theorem detaches_eraseGroup (r : Registry) (i : Nat) :
    r.byGroup.Detaches (r.eraseGroup i).byGroup i := by
  unfold eraseGroup
  cases erased : r.byGroup.erase? (r.groupBucket (r.slot i).leader) i with
  | none => exact .refl _ i
  | some y => exact Index.detaches_erase? erased

theorem slotOfPid?_leader (found : r.slotOfGroup? leader = some i) (groupOf : Pid → Option Pid) :
    r.slotOfPid? groupOf leader = some i := by
  rw [slotOfPid?, found, Option.some_or]

structure Collected (d : Measures) (r : Registry) (live grouped : List Nat) (i : Nat)
    (events : List ChildEvent) (r' : Registry) : Prop where
  layout : r'.Layout d live (kept (!events.any ChildEvent.isTerminal) i grouped)
  own : r'.slot i = { r.slot i with state := afterDue events (r.slot i).state }
  other : ∀ j, j ≠ i → r'.slot j = r.slot j
  byGroup : r.byGroup.Detaches r'.byGroup i
  frame : r' = { r with slots := r'.slots, byGroup := r'.byGroup }

theorem Layout.slotOfGroup?_updateState (h : r.Layout d live grouped) (i : Nat)
    (f : RunState → RunState) : (r.updateState i f).slotOfGroup? leader = r.slotOfGroup? leader := by
  rw [(h.updateState i f).slotOfGroup?_eq, h.slotOfGroup?_eq]
  refine List.find?_congr fun j _ => ?_
  rw [slot_updateState]
  split <;> rfl

theorem Layout.relay_due (h : r.Layout d live grouped) (groupOf : Pid → Option Pid)
    (found : r.slotOfGroup? leader = some i) (events : List ChildEvent) :
    Collected d r live grouped i events (r.relay ((due events).map (Report.mk groupOf leader))).1 ∧
      ∀ owned ∈ (r.relay ((due events).map (Report.mk groupOf leader))).2, owned := by
  induction events generalizing r with
  | nil => exact ⟨⟨h, rfl, fun _ _ => rfl, .refl _ i, rfl⟩, by simp⟩
  | cons event events ih =>
    have hi := h.lt_size (h.grouped_live i (h.mem_of_slotOfGroup? found).1)
    have first := notify_eq (slotOfPid?_leader found groupOf) event
    by_cases terminal : event.isTerminal
    · simp only [due_terminal terminal, relay, List.map_cons, List.map_nil, first, if_pos terminal]
      refine ⟨⟨?_, ?_, fun j hj => slot_updateState_of_ne hj _, detaches_eraseGroup r i, rfl⟩, by simp⟩
      · rw [List.any_cons, terminal]
        exact (h.eraseGroup i).updateState i _
      · rw [slot_updateState, if_pos ⟨rfl, hi⟩, afterDue, due_terminal terminal]
        rfl
    · obtain ⟨last, owned⟩ := ih (h.updateState i (afterEvent event))
        (by rw [h.slotOfGroup?_updateState, found])
      simp only [due_lasting terminal, relay, List.map_cons, first, if_neg terminal]
      refine ⟨⟨?_, ?_, fun j hj => ?_, last.byGroup, last.frame⟩, by simpa using owned⟩
      · rw [List.any_cons, Bool.eq_false_iff.mpr terminal]
        exact last.layout
      · rw [last.own, slot_updateState, if_pos ⟨rfl, hi⟩, afterDue_lasting terminal]
      · rw [last.other j hj, slot_updateState_of_ne hj]

/-- While something is pending of a leader the walk still has all the slots ahead that it finds. -/
structure Ahead (d : Measures) (live grouped : List Nat) (s : Reaping) (is : List Nat) : Prop where
  layout : s.registry.Layout d live grouped
  same : ∀ leader, s.pending.events leader ≠ [] →
    grouped.filter (fun i => (s.registry.slot i).leader = leader) =
      is.filter fun i => (s.registry.slot i).leader = leader

theorem filter_kept {keep : Bool} {p : Nat → Bool} (hi : ¬p i) :
    (kept keep i is).filter p = is.filter p := by
  rw [kept_eq_filter, List.filter_filter]
  refine List.filter_congr fun j _ => ?_
  by_cases he : j = i
  · simp [he, hi]
  · simp [he]

theorem Collected.slot_leader (h : Collected d r live grouped i events r') (j : Nat) :
    (r'.slot j).leader = (r.slot j).leader := by
  by_cases he : j = i
  · rw [he, h.own]
  · rw [h.other j he]

/-- A visit takes at most its own slot out of the index: of the slots with its leader it comes first
in the index, as those in front of it have ended. -/
theorem Ahead.collect (h : Ahead d live grouped s (i :: is)) (groupOf : Pid → Option Pid) :
    (∃ grouped', Ahead d live grouped' (s.collect groupOf (s.registry.slot i).leader) is) ∧
      s.registry.byGroup.Detaches (s.collect groupOf (s.registry.slot i).leader).registry.byGroup i := by
  rw [Reaping.collect_eq, Reaping.after]
  have others : ∀ leader, leader ≠ (s.registry.slot i).leader →
      (s.pending.collected [(s.registry.slot i).leader]).events leader = s.pending.events leader :=
    fun leader hne => s.pending.events_collected (by simpa using hne)
  -- Other leaders do not miss the slot of the visit.
  have apart : ∀ leader, leader ≠ (s.registry.slot i).leader → s.pending.events leader ≠ [] →
      grouped.filter (fun i => (s.registry.slot i).leader = leader) =
        is.filter fun i => (s.registry.slot i).leader = leader := by
    intro leader hne pending
    rw [h.same leader pending, List.filter_cons_of_neg (by simpa using hne.symm)]
  by_cases none : s.pending.events (s.registry.slot i).leader = []
  · rw [Pending.reports, Pending.due, none, s.pending.collected_of_nil none]
    refine ⟨⟨grouped, h.layout, fun leader pending => apart leader ?_ pending⟩, .refl _ i⟩
    rintro rfl
    exact pending none
  · have own := h.same _ none
    rw [List.filter_cons_of_pos (by simp)] at own
    have found : s.registry.slotOfGroup? (s.registry.slot i).leader = some i := by
      rw [h.layout.slotOfGroup?_eq, ← List.head?_filter, own, List.head?_cons]
    obtain ⟨settled, _⟩ := h.layout.relay_due groupOf found
      (s.pending.events (s.registry.slot i).leader)
    refine ⟨⟨_, settled.layout, fun leader pending => ?_⟩, settled.byGroup⟩
    simp only [Pending.reports, Pending.due, settled.slot_leader]
    by_cases he : leader = (s.registry.slot i).leader
    · subst he
      -- Something is left over only if the runner has ended.
      have ends : (s.pending.events (s.registry.slot i).leader).any ChildEvent.isTerminal := by
        by_contra lasting
        exact pending (s.pending.events_collected_of_lasting lasting)
      have nodup := h.layout.grouped_nodup.filter fun j =>
        (s.registry.slot j).leader = (s.registry.slot i).leader
      rw [own] at nodup
      rw [ends, Bool.not_true, kept, if_neg Bool.false_ne_true, List.filter_comm, own,
        List.filter_cons_of_neg (by simp)]
      exact Index.filter_ne_eq_self (List.nodup_cons.mp nodup).1
    · rw [filter_kept (by simpa using Ne.symm he)]
      exact apart leader he (others leader he ▸ pending)

theorem ahead_toList (h : r.Layout d live grouped) (pending : Pending) :
    Ahead d live grouped ⟨r, pending, 0⟩ r.byGroup.toList := by
  refine ⟨h, fun leader _ => ?_⟩
  refine (h.byGroup.filter_toList (b := d.bucket leader.val.toUInt32) fun i _ leads => ?_).symm
  rw [of_decide_eq_true leads]

theorem leader_relay (r : Registry) (reports : List Report) (j : Nat) :
    ((r.relay reports).1.slot j).leader = (r.slot j).leader := by
  induction reports generalizing r with
  | nil => rfl
  | cons report reports ih => exact (ih _).trans (leader_hear r report j)

theorem Layout.reap_eq_foldl (h : r.Layout d live grouped) (groupOf : Pid → Option Pid)
    (pending : Pending) :
    r.reap groupOf pending = r.leaders.foldl (Reaping.collect groupOf) ⟨r, pending, 0⟩ := by
  have walked : r.reap groupOf pending = r.byGroup.toList.foldl
      (fun s i => s.collect groupOf (s.registry.slot i).leader) ⟨r, pending, 0⟩ := by
    unfold reap
    exact Index.visitAll_eq_foldl (P := fun s is => ∃ grouped, Ahead d live grouped s is)
      (fun s i is ⟨_, ahead⟩ => ahead.collect groupOf) h.byGroup ⟨grouped, ahead_toList h pending⟩
  -- No visit writes a leader.
  have visits : ∀ (is : List Nat) (s : Reaping),
      (∀ i, (s.registry.slot i).leader = (r.slot i).leader) →
      is.foldl (fun s i => s.collect groupOf (s.registry.slot i).leader) s =
        (is.map fun i => (r.slot i).leader).foldl (Reaping.collect groupOf) s := by
    intro is
    induction is with
    | nil => intro s _; rfl
    | cons i is ih =>
      intro s same
      rw [List.foldl_cons, List.map_cons, List.foldl_cons, ← same i]
      refine ih _ fun j => ?_
      rw [Reaping.collect_eq]
      exact (leader_relay s.registry _ j).trans (same j)
  rw [walked, leaders]
  exact visits _ _ fun _ => rfl

theorem Reaping.foldl_collect (groupOf : Pid → Option Pid) (nodup : asked.Nodup) (s : Reaping) :
    asked.foldl (Reaping.collect groupOf) s =
      ⟨(s.registry.relay (asked.flatMap (s.pending.reports groupOf))).1, s.pending.collected asked,
        s.applied + (s.registry.relay (asked.flatMap (s.pending.reports groupOf))).2.count true⟩ := by
  induction asked generalizing s with
  | nil =>
    rw [s.pending.collected_nil]
    rfl
  | cons leader asked ih =>
    obtain ⟨hn, nodup⟩ := List.nodup_cons.mp nodup
    -- What is pending of the leaders behind it does not change when one is asked.
    have others : asked.flatMap ((s.pending.collected [leader]).reports groupOf) =
        asked.flatMap (s.pending.reports groupOf) := by
      refine List.flatMap_congr fun pid hp => ?_
      have apart : pid ∉ [leader] := by simpa using ne_of_mem_of_not_mem hp hn
      rw [Pending.reports, Pending.reports, s.pending.due_collected apart]
    rw [List.foldl_cons, ih nodup, Reaping.collect_eq, List.flatMap_cons, relay_append]
    simp only [Reaping.after, others, s.pending.collected_collected hn, List.count_append,
      Nat.add_assoc]

theorem length_relay (r : Registry) (reports : List Report) :
    (r.relay reports).2.length = reports.length := by
  induction reports generalizing r with
  | nil => rfl
  | cons report reports ih => exact congrArg (· + 1) (ih _)

theorem Layout.mem_leaders (h : r.Layout d live grouped) :
    leader ∈ r.leaders ↔ ∃ i ∈ grouped, (r.slot i).leader = leader := by
  simp only [leaders, List.mem_map, h.byGroup.mem_toList]

theorem Layout.leaders_eq (h : r.Layout d live grouped) :
    r.leaders = (List.range d.buckets).flatMap fun b =>
      ((r.roster live grouped).grouped.map Runner.leader).filter
        fun leader => d.bucket leader.val.toUInt32 = b := by
  simp only [leaders, Index.toList, h.groupHeads_size, List.map_flatMap, h.byGroup.chain_eq,
    h.grouped_roster, List.map_map, List.filter_map, Function.comp_def]

theorem Layout.unshared (h : r.Layout d live grouped) (distinct : r.leaders.Nodup) :
    r.Unshared grouped := by
  intro i hi j hj same
  exact List.inj_on_of_nodup_map distinct (h.byGroup.mem_toList.mpr hi)
    (h.byGroup.mem_toList.mpr hj) same

/-- Some leaders have been asked: what is due of each has been applied to its runner. -/
structure Reaped (d : Measures) (r : Registry) (live grouped : List Nat) (pending : Pending)
    (asked : List Pid) (r' : Registry) : Prop where
  layout : r'.Layout d live (grouped.filter fun i =>
    ¬((r.slot i).leader ∈ asked ∧ (pending.events (r.slot i).leader).any ChildEvent.isTerminal))
  slot : ∀ i, r'.slot i = if i ∈ grouped ∧ (r.slot i).leader ∈ asked
    then { r.slot i with state := afterDue (pending.events (r.slot i).leader) (r.slot i).state }
    else r.slot i
  frame : r' = { r with slots := r'.slots, byGroup := r'.byGroup }

section

variable {r₁ r₂ : Registry}

theorem Reaped.step (h : Reaped d r live grouped pending asked r') (unshared : r.Unshared grouped)
    (groupOf : Pid → Option Pid) (hi : i ∈ grouped) (hn : (r.slot i).leader ∉ asked) :
    Reaped d r live grouped pending (asked ++ [(r.slot i).leader])
        (r'.relay (pending.reports groupOf (r.slot i).leader)).1 ∧
      ∀ owned ∈ (r'.relay (pending.reports groupOf (r.slot i).leader)).2, owned := by
  have leaders : ∀ j, (r'.slot j).leader = (r.slot j).leader := by
    intro j
    rw [h.slot j]
    split <;> rfl
  have found : r'.slotOfGroup? (r.slot i).leader = some i := by
    rw [h.layout.slotOfGroup?_eq]
    refine find?_eq_some_of_unique (List.mem_filter.mpr ⟨hi, by simp [hn]⟩) (by simp [leaders]) ?_
    intro j hj same
    exact unshared j (List.mem_of_mem_filter hj) i hi (by simpa [leaders] using same)
  have same : r'.slot i = r.slot i := by
    rw [h.slot i, if_neg fun both => hn both.2]
  have apart : ∀ j ∈ grouped, j ≠ i → (r.slot j).leader ≠ (r.slot i).leader :=
    fun j hj hne shared => hne (unshared j hj i hi shared)
  unfold Pending.reports Pending.due
  obtain ⟨settled, owned⟩ := h.layout.relay_due groupOf found (pending.events (r.slot i).leader)
  refine ⟨⟨?_, fun j => ?_, ?_⟩, owned⟩
  · refine (congrArg (Layout d _ live) ?_).mp settled.layout
    rw [kept_eq_filter, List.filter_filter]
    refine List.filter_congr fun j hj => ?_
    by_cases he : j = i
    · simp [he, hn]
    · simp [he, apart j hj he]
  · by_cases he : j = i
    · subst he
      rw [settled.own, same, if_pos ⟨hi, by simp⟩]
    · rw [settled.other j he, h.slot j]
      by_cases hj : j ∈ grouped
      · simp [hj, apart j hj he]
      · simp [hj]
  · rw [settled.frame, h.frame]

theorem Layout.reaped (h : r.Layout d live grouped) (unshared : r.Unshared grouped)
    (groupOf : Pid → Option Pid) (pending : Pending) (nodup : asked.Nodup)
    (sub : ∀ leader ∈ asked, leader ∈ r.leaders) :
    Reaped d r live grouped pending asked (r.relay (asked.flatMap (pending.reports groupOf))).1 ∧
      ∀ owned ∈ (r.relay (asked.flatMap (pending.reports groupOf))).2, owned := by
  induction asked using List.reverseRecOn with
  | nil => exact ⟨⟨by simpa using h, by simp, rfl⟩, by simp⟩
  | append_singleton asked leader ih =>
    obtain ⟨nodup', _, apart⟩ := List.nodup_append'.mp nodup
    obtain ⟨done, owned⟩ := ih nodup' fun pid hp => sub pid (List.mem_append_left _ hp)
    obtain ⟨i, hi, rfl⟩ := h.mem_leaders.mp (sub leader (by simp))
    obtain ⟨done', owned'⟩ := done.step unshared groupOf hi fun hm => apart hm (by simp)
    rw [List.flatMap_append, List.flatMap_singleton, relay_append]
    refine ⟨done', fun answer mem => ?_⟩
    rcases List.mem_append.mp mem with mem | mem
    · exact owned answer mem
    · exact owned' answer mem

/-- Two registries are the same, but for links that no chain goes through. -/
structure Coincides (r r' : Registry) : Prop where
  rest : r = { r' with byGroup := r.byGroup }
  heads : r.byGroup.heads = r'.byGroup.heads
  chain : ∀ b, r.byGroup.chain b = r'.byGroup.chain b
  after : ∀ b, ∀ i ∈ r.byGroup.chain b, r.byGroup.after i = r'.byGroup.after i

theorem slots_ext (size : r.slots.size = r'.slots.size) (same : ∀ i, r.slot i = r'.slot i) :
    r.slots = r'.slots := by
  refine Array.ext size fun i hi hi' => ?_
  rw [← slot_eq_getElem hi, ← slot_eq_getElem hi', same i]

theorem Reaped.congr (h : Reaped d r live grouped pending asked r₁)
    (same : ∀ leader, leader ∈ asked ↔ leader ∈ asked') :
    Reaped d r live grouped pending asked' r₁ := by
  obtain ⟨layout, slot, frame⟩ := h
  simp only [same] at layout slot
  exact ⟨layout, slot, frame⟩

theorem Reaped.coincides (h : Reaped d r live grouped pending asked r₁)
    (h' : Reaped d r live grouped pending asked r₂) : r₁.Coincides r₂ := by
  have slots : ∀ i, r₁.slot i = r₂.slot i := fun i => (h.slot i).trans (h'.slot i).symm
  have layout := h.layout
  have layout' := h'.layout
  have size : r₁.byGroup.heads.size = r₂.byGroup.heads.size :=
    layout.groupHeads_size.trans layout'.groupHeads_size.symm
  obtain ⟨heads, after⟩ := layout.byGroup.unique
    (layout'.byGroup.congr fun i _ => by rw [slots]) size
  refine ⟨?_, heads, fun b => ?_, fun b i hi => after i (layout.byGroup.mem_chain.mp hi).1⟩
  · have same : r₁.slots = r₂.slots :=
      slots_ext (layout.slots_size.trans layout'.slots_size.symm) slots
    rw [h.frame, h'.frame, same]
  · rw [layout.byGroup.chain_eq, layout'.byGroup.chain_eq]
    simp only [slots]

end

end AppSupervisor.Registry
