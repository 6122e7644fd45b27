import AppSupervisor.Proofs.ControlThread.Lifecycle
import AppSupervisor.Proofs.Registry.Addition
import AppSupervisor.Proofs.Registry.Relay

namespace AppSupervisor

/-- What a status change makes of the state of its runner: one on its way out stays there until it
ends. -/
inductive RunState.Heard : ChildEvent → RunState → RunState → Prop
  | ended {event : ChildEvent} {s : RunState} (process : s.hasProcess) (terminal : event.isTerminal) :
      Heard event s .terminated
  | leaving {event : ChildEvent} (lasting : ¬event.isTerminal) : Heard event .terminating .terminating
  | stopped {s : RunState} (here : s = .running ∨ s = .stopped) : Heard .stopped s .stopped
  | continued {s : RunState} (here : s = .running ∨ s = .stopped) : Heard .continued s .running

theorem RunState.heard_afterEvent {s : RunState} (process : s.hasProcess) (event : ChildEvent) :
    s.Heard event (Registry.afterEvent event s) := by
  by_cases terminal : event.isTerminal
  · rw [Registry.afterEvent, if_pos terminal]
    exact .ended process terminal
  · cases s with
    | starting | terminated => cases process
    | terminating =>
      cases event with
      | stopped | continued => exact .leaving terminal
      | _ => exact absurd rfl terminal
    | running =>
      cases event with
      | stopped => exact .stopped (Or.inl rfl)
      | continued => exact .continued (Or.inl rfl)
      | _ => exact absurd rfl terminal
    | stopped =>
      cases event with
      | stopped => exact .stopped (Or.inr rfl)
      | continued => exact .continued (Or.inr rfl)
      | _ => exact absurd rfl terminal

namespace Registry

/-- Of the runners indexed by process group with this leader the one that was indexed last; `ns` are
all that were ever indexed, the last one first. -/
def latest? (r : Registry) (ns : List Nat) (group : Pid) : Option Runner :=
  (ns.filterMap r.runner?).find? fun x => x.serial ∈ r.indexed ∧ x.leader = group

/-- The runner that a process belongs to, as its leader or else as its application. -/
def latestOwner? (groupOf : Pid → Option Pid) (r : Registry) (ns : List Nat) (pid : Pid) :
    Option Runner :=
  match r.latest? ns pid with
  | some x => some x
  | none => ((groupOf pid).bind (r.latest? ns)).filter (·.app = pid)

/-- A status change has been applied to the runner in a slot, and nothing else has been written. -/
structure Updates (r : Registry) (event : ChildEvent) (i : Nat) (s : RunState) (r' : Registry) :
    Prop where
  indexed : ∃ b, i ∈ r.byGroup.chain b
  heard : (r.slot i).state.Heard event s
  slots : r'.slots = r.slots.modify i fun x => { x with state := s }
  groupChain : ∀ b, r'.byGroup.chain b =
    if event.isTerminal then (r.byGroup.chain b).filter (· ≠ i) else r.byGroup.chain b
  rest : r' = { r with slots := r'.slots, byGroup := r'.byGroup }
  toList : r'.toList = r.toList.map fun x =>
    if x.serial = (r.slot i).serial then { x with state := s } else x

variable {d : Measures} {r r' : Registry} {live grouped starting ns : List Nat} {i : Nat}
  {groupOf : Pid → Option Pid} {pid group : Pid}

theorem filter_of_sublist {ms : List Nat} (sub : ms.Sublist ns) (nodup : ns.Nodup) :
    ns.filter (· ∈ ms) = ms := by
  induction sub with
  | slnil => rfl
  | @cons ms ns n sub ih =>
    obtain ⟨hn, nodup⟩ := List.nodup_cons.mp nodup
    rw [List.filter_cons_of_neg (by simpa using fun hm => hn (sub.subset hm)), ih nodup]
  | @cons_cons ms ns n sub ih =>
    obtain ⟨hn, nodup⟩ := List.nodup_cons.mp nodup
    rw [List.filter_cons_of_pos (by simp)]
    refine congrArg (n :: ·) (Eq.trans (List.filter_congr fun k hk => ?_) (ih nodup))
    simp [ne_of_mem_of_not_mem hk hn]

namespace Layout

variable (h : r.Layout d live grouped)

include h

theorem mem_indexed_iff {n : Nat} :
    n ∈ r.indexed ↔ n ∈ grouped.map fun i => (r.slot i).serial := by
  simp only [indexed, List.mem_map, h.byGroup.mem_toList]

section

variable (sub : (grouped.map fun i => (r.slot i).serial).Sublist ns) (nodup : ns.Nodup)

include sub nodup

theorem filter_indexed :
    (ns.filterMap r.runner?).filter (·.serial ∈ r.indexed) = grouped.map r.slot := by
  have still : ∀ n ∈ ns, (r.runner? n).filter (·.serial ∈ r.indexed) =
      if n ∈ grouped.map fun i => (r.slot i).serial then r.runner? n else none := by
    intro n _
    cases found : r.runner? n with
    | none => simp
    | some x =>
      obtain ⟨_, _, _, rfl⟩ := h.runner?_eq_some.mp found
      simp only [Option.filter_some, h.mem_indexed_iff, decide_eq_true_eq]
  have found : ∀ i ∈ grouped, r.runner? (r.slot i).serial = some (r.slot i) :=
    fun i hi => h.runner?_slot (h.grouped_live i hi)
  calc (ns.filterMap r.runner?).filter (·.serial ∈ r.indexed)
      = ns.filterMap fun n =>
          if n ∈ grouped.map fun i => (r.slot i).serial then r.runner? n else none := by
        rw [List.filter_filterMap, List.filterMap_congr still]
    _ = (ns.filter (· ∈ grouped.map fun i => (r.slot i).serial)).filterMap r.runner? := by
        rw [List.filterMap_filter]
        simp only [decide_eq_true_eq]
    _ = grouped.filterMap fun i => r.runner? (r.slot i).serial := by
        rw [filter_of_sublist sub nodup, List.filterMap_map]
        rfl
    _ = grouped.map r.slot := by
        rw [List.filterMap_congr found]
        exact congrFun List.filterMap_eq_map grouped

theorem latest?_eq (group : Pid) : r.latest? ns group = r.lookupGroup group := by
  rw [h.lookupGroup_grouped, ← h.filter_indexed sub nodup, List.find?_filter, latest?]
  simp only [Bool.decide_and, Bool.decide_eq_true]

theorem latestOwner?_eq (groupOf : Pid → Option Pid) (pid : Pid) :
    r.latestOwner? groupOf ns pid = r.lookupPid groupOf pid := by
  have groups : r.latest? ns = r.lookupGroup := funext (h.latest?_eq sub nodup)
  rw [lookupPid_eq_or, latestOwner?, groups]
  cases r.lookupGroup pid with
  | none => rfl
  | some x => rfl

end

end Layout

theorem modify_slots (i : Nat) (f : RunState → RunState) :
    r.slots.modify i (fun x => { x with state := f x.state }) =
      r.slots.modify i fun x => { x with state := f (r.slot i).state } := by
  refine Array.ext (by simp) fun j _ hj => ?_
  rw [Array.getElem_modify, Array.getElem_modify]
  split
  next he =>
    subst he
    simp only [slot_eq_getElem (show i < r.slots.size by simpa using hj)]
  next => rfl

theorem Layout.groupChain_ended (h : r.Layout d live grouped) (i : Nat) (f : RunState → RunState)
    (b : Nat) : ((r.eraseGroup i).updateState i f).byGroup.chain b =
      (r.byGroup.chain b).filter (· ≠ i) := by
  have left := (h.eraseGroup i).updateState i f
  rw [left.byGroup.chain_eq, h.byGroup.chain_eq]
  refine Eq.trans (List.filter_congr fun j _ => ?_) (List.filter_comm _ _ _)
  rw [slot_updateState]
  split <;> rfl

theorem Layout.toList_updateState (h : r.Layout d live grouped) (hi : i ∈ live)
    (f : RunState → RunState) : (r.updateState i f).toList = r.toList.map fun x =>
      if x.serial = (r.slot i).serial then { x with state := f (r.slot i).state } else x := by
  rw [toList, toList, List.map_map]
  refine List.map_congr_left fun j hj => ?_
  have hl := h.byRunId.mem_toList.mp hj
  rw [Function.comp_apply]
  by_cases he : j = i
  · subst he
    rw [slot_updateState, if_pos ⟨rfl, h.lt_size hl⟩, if_pos rfl]
  · rw [slot_updateState_of_ne he, if_neg fun same => he (h.serial_inj hl hi same)]

theorem Sound.updates (h : r.Sound d live grouped starting)
    (found : r.slotOfPid? groupOf pid = some i) (event : ChildEvent) :
    ∃ s r', r.notify groupOf pid event = (r', true) ∧ r.Updates event i s r' := by
  obtain ⟨hg, _⟩ := h.layout.mem_of_slotOfPid? found
  have hi := h.layout.grouped_live i hg
  refine ⟨afterEvent event (r.slot i).state, _, notify_eq found event,
    ⟨_, h.layout.byGroup.mem_chain.mpr ⟨hg, rfl⟩⟩, RunState.heard_afterEvent (h.hasProcess hg) event,
    ?_, fun b => ?_, ?_, ?_⟩
  · split
    next => exact modify_slots i _
    next => exact modify_slots i _
  · split
    next => exact h.layout.groupChain_ended i _ b
    next => rfl
  · split
    next => rfl
    next => rfl
  · split
    next => exact (h.layout.eraseGroup i).toList_updateState hi _
    next => exact h.layout.toList_updateState hi _

end Registry

namespace ControlThread

/-- Moves lead to a thread, and on the way they put these runners into the index of process groups,
the last one first. -/
inductive ReachesWith (t : ControlThread) : ControlThread → List Nat → Prop
  | refl : ReachesWith t t []
  | step {u : ControlThread} {ns : List Nat} (h : ReachesWith t u ns) (groupOf : Pid → Option Pid)
      (m : Move) : ReachesWith t (u.step groupOf m).1 ((u.indexes? m).toList ++ ns)

def indexing (groupOf : Pid → Option Pid) (t : ControlThread) : List Move → List Nat
  | [] => []
  | m :: moves => (t.step groupOf m).1.indexing groupOf moves ++ (t.indexes? m).toList

/-- What a status change does, after these runners have been indexed. -/
structure Notifies (groupOf : Pid → Option Pid) (t : ControlThread) (ns : List Nat) (pid : Pid)
    (event : ChildEvent) : Prop where
  unowned : t.registry.latestOwner? groupOf ns pid = none →
    t.step groupOf (.notify pid event) = (t, .notified false)
  owned : ∀ x, t.registry.latestOwner? groupOf ns pid = some x →
    ∃ i s r, t.registry.slot i = x ∧
      t.step groupOf (.notify pid event) = (t.update r t.waiting, .notified true) ∧
      t.registry.Updates event i s r
  forgotten : ∀ x, t.registry.latestOwner? groupOf ns pid = some x → event.isTerminal →
    ∀ u, Reaches (t.step groupOf (.notify pid event)).1 u →
      x.serial ∉ u.registry.indexed ∧
      ∀ groupOf pid, u.registry.owner? groupOf pid ≠ some x.serial

structure Remembers (d : Measures) (t : ControlThread) (live grouped ns : List Nat) : Prop where
  sound : t.Sound d live grouped
  order : (grouped.map fun i => (t.registry.slot i).serial).Sublist ns
  nodup : ns.Nodup
  known : ∀ n ∈ ns, n < t.registry.allocations ∧ t.registry.state? n ≠ some .starting

variable {d : Measures} {groupOf : Pid → Option Pid} {t u : ControlThread} {m : Move}
  {live grouped ns : List Nat} {n : Nat} {pid : Pid} {event : ChildEvent}

theorem ReachesWith.reaches (h : ReachesWith t u ns) : Reaches t u := by
  induction h with
  | refl => exact .refl t
  | step _ groupOf m ih => exact ih.step groupOf m

theorem Reaches.exists_with (h : Reaches t u) : ∃ ns, ReachesWith t u ns := by
  induction h with
  | refl => exact ⟨[], .refl⟩
  | step _ groupOf m ih =>
    obtain ⟨ns, reached⟩ := ih
    exact ⟨_, reached.step groupOf m⟩

theorem reachesWith_run (h : ReachesWith t u ns) (groupOf : Pid → Option Pid) (moves : List Move) :
    ReachesWith t (u.run groupOf moves) (u.indexing groupOf moves ++ ns) := by
  induction moves generalizing u ns with
  | nil => exact h
  | cons m moves ih =>
    rw [indexing, List.append_assoc]
    exact ih (h.step groupOf m)

theorem Sound.of_indexes? (h : t.Sound d live grouped) (new : t.indexes? m = some n)
    (groupOf : Pid → Option Pid) :
    n < t.registry.allocations ∧ t.registry.state? n = some .starting ∧
      (t.step groupOf m).1.registry.state? n = some .running := by
  unfold indexes? at new
  split at new
  next children =>
    split at new
    next p rest top =>
      obtain ⟨hi, hg, starting⟩ := h.launching (top ▸ List.mem_cons_self)
      have layout := h.registry.layout
      cases new
      refine ⟨layout.serial_lt _ hi, ?_, ?_⟩
      · rw [layout.state?_slot hi, starting]
      · rw [step_launched top, registry_update, layout.state?_insertGroup hi hg, if_pos rfl]
    next => cases new
  next => cases new

theorem Remembers.step (h : Remembers d t live grouped ns) (groupOf : Pid → Option Pid) (m : Move) :
    ∃ live' grouped', Remembers d (t.step groupOf m).1 live' grouped' ((t.indexes? m).toList ++ ns) := by
  have effect := effect_step groupOf t m
  obtain ⟨live', grouped', sound, order⟩ := effect.sound_order h.sound
  have le := effect.allocations_le h.sound
  have old : ∀ n ∈ ns, n < (t.step groupOf m).1.registry.allocations ∧
      (t.step groupOf m).1.registry.state? n ≠ some .starting := by
    intro n hn
    obtain ⟨lt, launched⟩ := h.known n hn
    exact ⟨by omega, (effect.passage h.sound n).ne_starting lt launched⟩
  have order' := order.trans ((List.Sublist.refl _).append h.order)
  cases new : t.indexes? m with
  | none =>
    rw [new] at order'
    exact ⟨live', grouped', sound, order', h.nodup, old⟩
  | some n =>
    rw [new] at order'
    obtain ⟨lt, starting, running⟩ := h.sound.of_indexes? new groupOf
    -- A runner that was indexed before is not Starting any more.
    have hn : n ∉ ns := fun hm => (h.known n hm).2 starting
    refine ⟨live', grouped', sound, order', List.nodup_cons.mpr ⟨hn, h.nodup⟩, fun k hk => ?_⟩
    rcases List.mem_cons.mp hk with rfl | hk
    · exact ⟨by omega, by simp [running]⟩
    · exact old k hk

theorem ReachesWith.remembers (h : ReachesWith t u ns) (start : Remembers d t [] [] []) :
    ∃ live grouped, Remembers d u live grouped ns := by
  induction h with
  | refl => exact ⟨[], [], start⟩
  | step _ groupOf m ih =>
    obtain ⟨_, _, before⟩ := ih
    exact before.step groupOf m

theorem remembers_empty (d : Measures) (home : String) :
    Remembers d (ofSupervisor ⟨home, .empty d.capacity d.maxRunId d.buckets⟩) [] [] [] :=
  ⟨sound_empty d home, .slnil, List.nodup_nil, by simp⟩

theorem Passage.finished {o o' : Option RunState} (p : Passage groupOf t n m o o')
    (lt : n < t.registry.allocations) (ho : o = none ∨ o = some .terminated) :
    o' = none ∨ o' = some .terminated := by
  cases p with
  | absent => exact Or.inl rfl
  | born _ new => exact absurd new (Nat.ne_of_lt lt)
  | kept => exact ho
  | moved next unended =>
    rcases ho with he | he
    · cases he
    · cases he
      exact absurd (next.of_isGone rfl) unended
  | ended => exact Or.inr rfl
  | reclaimed | removed | failed => exact Or.inl rfl

theorem Sound.unowned_of_finished (h : u.Sound d live grouped)
    (finished : u.registry.state? n = none ∨ u.registry.state? n = some .terminated) :
    n ∉ u.registry.indexed ∧ ∀ groupOf pid, u.registry.owner? groupOf pid ≠ some n := by
  have absent : n ∉ u.registry.indexed := by
    rw [h.registry.mem_indexed]
    rintro ⟨s, hs, process⟩
    rcases finished with he | he
    · simp [he] at hs
    · rw [he, Option.some.injEq] at hs
      exact RunState.ne_terminated process hs.symm
  refine ⟨absent, fun groupOf pid owner => absent ?_⟩
  obtain ⟨x, hx, rfl⟩ := Option.map_eq_some_iff.mp owner
  obtain ⟨i, hi, rfl⟩ := Option.map_eq_some_iff.mp hx
  obtain ⟨hg, _⟩ := h.registry.layout.mem_of_slotOfPid? hi
  exact (h.registry.serial_mem_indexed (h.registry.layout.grouped_live i hg)).mpr hg

theorem Remembers.notifies (h : Remembers d t live grouped ns) (groupOf : Pid → Option Pid)
    (pid : Pid) (event : ChildEvent) : t.Notifies groupOf ns pid event := by
  have registry := h.sound.registry
  have owner := registry.layout.latestOwner?_eq h.order h.nodup groupOf pid
  rw [Registry.lookupPid] at owner
  refine ⟨fun none => ?_, fun x some => ?_, fun x some terminal u later => ?_⟩
  · rw [owner, Option.map_eq_none_iff] at none
    simp only [ControlThread.step, Supervisor.notify, Registry.notify_eq_self none]
  · rw [owner] at some
    obtain ⟨i, found, rfl⟩ := Option.map_eq_some_iff.mp some
    obtain ⟨s, r, notified, updates⟩ := registry.updates found event
    refine ⟨i, s, r, rfl, ?_, updates⟩
    simp only [ControlThread.step, Supervisor.notify, notified]
    rfl
  · have owned : t.registry.owner? groupOf pid = Option.some x.serial := by
      rw [Registry.owner?, Registry.lookupPid, ← owner, some, Option.map_some]
    have ended : (t.step groupOf (.notify pid event)).1.registry.state? x.serial =
        Option.some .terminated :=
      (registry.layout.hear_terminated_iff ⟨groupOf, pid, event⟩).mpr (Or.inr ⟨terminal, owned⟩)
    obtain ⟨_, _, sound⟩ := (effect_step groupOf t (.notify pid event)).sound h.sound
    obtain ⟨_, _, sound'⟩ := later.sound sound
    obtain ⟨y, hy, _⟩ := Option.map_eq_some_iff.mp ended
    exact sound'.unowned_of_finished (later.keeps (Q := fun o => o = none ∨ o = Option.some .terminated)
      (fun lt passage => passage.finished lt) sound (sound.registry.layout.lt_allocations hy)
      (Or.inr ended))

/-- Whatever a supervisor is asked, told and answered before: a status change concerns the runner
of its process that was indexed last, and no other. -/
theorem notifies_of_reaches {capacity buckets : UInt64} {maxRunId : UInt32} {home : String}
    {r : Registry} (created : Registry.create capacity maxRunId buckets = .ok r)
    (h : Reaches (ofSupervisor ⟨home, r⟩) t) :
    (∃ ns, ReachesWith (ofSupervisor ⟨home, r⟩) t ns) ∧
    ∀ ns, ReachesWith (ofSupervisor ⟨home, r⟩) t ns →
      ∀ groupOf pid event, t.Notifies groupOf ns pid event := by
  refine ⟨h.exists_with, fun ns reached groupOf pid event => ?_⟩
  obtain ⟨d, hcapacity, hmax, hbuckets, rfl⟩ := Registry.create_eq_ok created
  rw [← hcapacity, ← hmax, ← hbuckets] at reached
  obtain ⟨_, _, remembers⟩ := reached.remembers (remembers_empty d home)
  exact remembers.notifies groupOf pid event

theorem notifies_nested :
    (ReachesWith (ofSupervisor ⟨"/home", .empty 3 4 2⟩) (nestedTo 6) [1, 2] ∧
      ((nestedTo 6).registry.latestOwner? (fun _ => none) [1, 2] ⟨-7⟩).map Runner.serial = some 1) ∧
    (nestedTo 6).Notifies (fun _ => none) [1, 2] ⟨-7⟩ (.exited 0) := by
  have came : (ofSupervisor ⟨"/home", .empty 3 4 2⟩).indexing (fun _ => none) (nested.take 6) =
      [1, 2] := by decide +kernel
  have reached : ReachesWith (ofSupervisor ⟨"/home", .empty 3 4 2⟩) (nestedTo 6) [1, 2] := by
    rw [← came, ← List.append_nil (indexing _ _ _)]
    exact reachesWith_run .refl _ _
  exact ⟨⟨reached, by decide +kernel⟩, (notifies_of_reaches
    (show Registry.create 3 4 2 = .ok (.empty 3 4 2) from rfl) reached.reaches).2 _ reached _ _ _⟩

end ControlThread
end AppSupervisor
