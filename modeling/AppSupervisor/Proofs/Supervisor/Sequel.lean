import AppSupervisor.Proofs.Registry.Reaping
import AppSupervisor.Proofs.Supervisor.Commutation

namespace AppSupervisor

/-- What may happen to a supervisor while its launcher is not at work. -/
inductive Supervisor.Step
  | serve (q : Request)
  | hear (s : Report)
  | reap (groupOf : Pid → Option Pid) (pending : Registry.Pending)

inductive Supervisor.Response
  | replied (result : Except Error Reply)
  | heard (owned : Bool)
  | reaped (applied : Nat) (pending : Registry.Pending)

namespace Supervisor

variable {σ : Type}

def advance (l : Launcher σ) (s : Supervisor) (w : σ) : Step → Response × Supervisor × σ
  | .serve q =>
    let (result, s, w) := s.serve l q w
    (.replied result, s, w)
  | .hear report =>
    let (s, owned) := s.notify report.groupOf report.pid report.event
    (.heard owned, s, w)
  | .reap groupOf pending =>
    let reaping := s.registry.reap groupOf pending
    (.reaped reaping.applied reaping.pending, { s with registry := reaping.registry }, w)

def follow (l : Launcher σ) (s : Supervisor) (w : σ) : List Step → List Response × Supervisor × σ
  | [] => ([], s, w)
  | step :: steps =>
    let (response, s, w) := s.advance l w step
    let (responses, s, w) := s.follow l w steps
    (response :: responses, s, w)

/-- Whatever happens from now on comes to the same on both sides, whichever launcher there is: the
responses, what becomes of the launcher's surroundings, and what the registry can be asked. -/
def Indistinguishable (s s' : Supervisor) : Prop :=
  ∀ (σ : Type) (l : Launcher σ) (w : σ) (steps : List Step),
    (s.follow l w steps).1 = (s'.follow l w steps).1 ∧
    (s.follow l w steps).2.2 = (s'.follow l w steps).2.2 ∧
    (s.follow l w steps).2.1.registry.Resembles (s'.follow l w steps).2.1.registry

end Supervisor

namespace Registry

/-- Two registries hold the same runners in the same order, in slots of their own. -/
def Alike (r r' : Registry) : Prop :=
  ∃ (d : Measures) (live grouped live' grouped' : List Nat) (a : Roster),
    r.Refines d live grouped a ∧ r'.Refines d live' grouped' a

inductive Finds (r r' : Registry) (live live' : List Nat) : Option Nat → Option Nat → Prop
  | neither : Finds r r' live live' none none
  | both {i i' : Nat} (hi : i ∈ live) (hi' : i' ∈ live') (same : r.slot i = r'.slot i') :
      Finds r r' live live' (some i) (some i')

variable {d : Measures} {r r' : Registry} {a : Roster} {live grouped starting live' grouped' : List Nat}
  {i i' : Nat}

namespace Refines

theorem updateState (h : r.Refines d live grouped a) (hi : i ∈ live) {f : RunState → RunState}
    (process : i ∈ grouped → (f (r.slot i).state).hasProcess) :
    (r.updateState i f).Refines d live grouped (a.updateState (r.slot i).serial f) where
  layout := h.layout.updateState i f
  roster := by rw [← h.roster, h.layout.roster_updateState hi]
  process j hj := by
    by_cases he : j = i
    · subst he
      rw [slot_updateState, if_pos ⟨rfl, h.layout.lt_size hi⟩]
      exact process hj
    · rw [slot_updateState_of_ne he]
      exact h.process j hj

theorem transition (h : r.Refines d live grouped a) (hi : i ∈ live) (before : RunState)
    {after : RunState} (process : after.hasProcess) :
    (r.transition i before after).Refines d live grouped
      (a.updateState (r.slot i).serial fun state => if state = before then after else state) := by
  refine h.updateState hi fun hg => ?_
  split
  next => exact process
  next => exact h.process i hg

theorem finds (h : r.Refines d live grouped a) (h' : r'.Refines d live' grouped' a) (id : RunId) :
    Finds r r' live live' (r.slotOfRunId? id) (r'.slotOfRunId? id) := by
  have same : (r.slotOfRunId? id).map r.slot = (r'.slotOfRunId? id).map r'.slot :=
    (h.answersLike.lookupRunId id).trans (h'.answersLike.lookupRunId id).symm
  cases hi : r.slotOfRunId? id with
  | none =>
    rw [hi] at same
    rw [Option.map_eq_none_iff.mp same.symm]
    exact .neither
  | some i =>
    rw [hi] at same
    obtain ⟨i', hi', same⟩ := Option.map_eq_some_iff.mp same.symm
    rw [hi']
    exact .both (h.layout.slotOfRunId?_eq_some.mp hi).1 (h'.layout.slotOfRunId?_eq_some.mp hi').1
      same.symm

end Refines

/-- Both sides allocate the same runner, or refuse to, and it does not matter to them how its launch
is answered. -/
inductive Allots (r r' : Registry) (m : Manifest) : Prop
  | refused {e : Error} (alike : r.Alike r') (failed : r.allocate m = .error e)
      (failed' : r'.allocate m = .error e)
  | allotted {r₁ r₁' : Registry} {i i' : Nat} (allocated : r.allocate m = .ok (r₁, i))
      (allocated' : r'.allocate m = .ok (r₁', i'))
      (launched : ∀ children, (r₁.insertGroup i children).Alike (r₁'.insertGroup i' children))
      (failed : (r₁.release i).Alike (r₁'.release i'))
      (runId : (r₁.slot i).runId = (r₁'.slot i').runId)

theorem Refines.alike (h : r.Refines d live grouped a) (h' : r'.Layout d live grouped)
    (slots : ∀ i ∈ live, r'.slot i = r.slot i) (lastRunId : r'.lastRunId = r.lastRunId)
    (allocations : r'.allocations = r.allocations) : r.Alike r' := by
  have indexed : ∀ i ∈ grouped, r'.slot i = r.slot i := fun i hi => slots i (h'.grouped_live i hi)
  refine ⟨d, live, grouped, live, grouped, a, h, h', ?_, fun i hi => ?_⟩
  · have runners := List.map_congr_left slots
    have serials := List.map_congr_left fun i hi => congrArg Runner.serial (indexed i hi)
    rw [← h.roster]
    simp only [Registry.roster, runners, serials, lastRunId, allocations]
  · rw [indexed i hi]
    exact h.process i hi

namespace Alike

theorem resembles (h : r.Alike r') : r.Resembles r' := by
  obtain ⟨d, live, grouped, live', grouped', a, left, right⟩ := h
  exact resembles_of_roster left.layout right.layout (left.roster.trans right.roster.symm)

theorem reclaim (h : r.Alike r') : r.reclaim.2 = r'.reclaim.2 ∧ r.reclaim.1.Alike r'.reclaim.1 := by
  obtain ⟨d, live, grouped, live', grouped', a, left, right⟩ := h
  obtain ⟨count, _, _, cleared⟩ := left.reclaim
  obtain ⟨count', _, _, cleared'⟩ := right.reclaim
  exact ⟨Answer.reclaimed.inj (count.trans count'.symm), _, _, _, _, _, _, cleared, cleared'⟩

theorem hear (h : r.Alike r') (s : Report) :
    (r.notify s.groupOf s.pid s.event).2 = (r'.notify s.groupOf s.pid s.event).2 ∧
      (r.hear s).Alike (r'.hear s) := by
  have owned := h.resembles.lookupPid s.groupOf s.pid
  obtain ⟨d, live, grouped, live', grouped', a, left, right⟩ := h
  obtain ⟨_, heard⟩ := left.hear s
  obtain ⟨_, heard'⟩ := right.hear s
  exact ⟨by rw [notify_snd, notify_snd, owned], _, _, _, _, _, _, heard, heard'⟩

theorem relay (h : r.Alike r') (reports : List Report) :
    (r.relay reports).2 = (r'.relay reports).2 ∧
      (r.relay reports).1.Alike (r'.relay reports).1 := by
  induction reports generalizing r r' with
  | nil => exact ⟨rfl, h⟩
  | cons report reports ih =>
    obtain ⟨owned, heard⟩ := h.hear report
    obtain ⟨answers, relayed⟩ := ih heard
    exact ⟨congrArg₂ List.cons owned answers, relayed⟩

theorem reap (h : r.Alike r') (groupOf : Pid → Option Pid) (pending : Pending) :
    (r.reap groupOf pending).applied = (r'.reap groupOf pending).applied ∧
      (r.reap groupOf pending).pending = (r'.reap groupOf pending).pending ∧
      (r.reap groupOf pending).registry.Alike (r'.reap groupOf pending).registry := by
  have asked : ∀ (leaders : List Pid) (s s' : Reaping), s.applied = s'.applied →
      s.pending = s'.pending → s.registry.Alike s'.registry →
      (leaders.foldl (Reaping.collect groupOf) s).applied =
          (leaders.foldl (Reaping.collect groupOf) s').applied ∧
        (leaders.foldl (Reaping.collect groupOf) s).pending =
          (leaders.foldl (Reaping.collect groupOf) s').pending ∧
        (leaders.foldl (Reaping.collect groupOf) s).registry.Alike
          (leaders.foldl (Reaping.collect groupOf) s').registry := by
    intro leaders
    induction leaders with
    | nil => exact fun s s' applied pending alike => ⟨applied, pending, alike⟩
    | cons leader leaders ih =>
      intro s s' applied pending alike
      obtain ⟨answers, relayed⟩ := alike.relay (s.pending.reports groupOf leader)
      apply ih
      · rw [Reaping.collect_eq, Reaping.collect_eq, Reaping.after, Reaping.after, applied, answers,
          pending]
      · rw [Reaping.collect_eq, Reaping.collect_eq, Reaping.after, Reaping.after, pending]
      · rw [Reaping.collect_eq, Reaping.collect_eq, Reaping.after, Reaping.after, ← pending]
        exact relayed
  have alike := h
  obtain ⟨d, live, grouped, live', grouped', a, left, right⟩ := h
  have leaders : r.leaders = r'.leaders := by
    rw [left.layout.leaders_eq, right.layout.leaders_eq, left.roster, right.roster]
  rw [left.layout.reap_eq_foldl, right.layout.reap_eq_foldl, leaders]
  exact asked _ _ _ rfl rfl alike

theorem release (h : r.Refines d live grouped a) (h' : r'.Refines d live' grouped' a)
    (hi : i ∈ live) (hi' : i' ∈ live') (same : r.slot i = r'.slot i')
    (quiet : ¬(r.slot i).state.hasProcess) : (r.release i).Alike (r'.release i') := by
  have left := h.release hi fun hg => quiet (h.process i hg)
  have right := h'.release hi' fun hg => quiet (same ▸ h'.process i' hg)
  rw [same] at left
  exact ⟨_, _, _, _, _, _, left, right⟩

theorem allocate (h : r.Alike r') (m : Manifest) : r.Allots r' m := by
  obtain ⟨d, live, grouped, live', grouped', a, left, right⟩ := h
  cases hr : r.allocate m with
  | error e =>
    have refused := left.layout.roster_allocate_error hr
    rw [left.roster] at refused
    cases hr' : r'.allocate m with
    | error e' =>
      have refused' := right.layout.roster_allocate_error hr'
      rw [right.roster, refused] at refused'
      cases refused'
      exact .refused ⟨_, _, _, _, _, _, left, right⟩ hr hr'
    | ok result =>
      have allocated := right.layout.roster_allocate (allocate_eq_ok hr')
      rw [right.roster, refused] at allocated
      cases allocated
  | ok result =>
    have allocates := allocate_eq_ok hr
    have allocated := left.layout.roster_allocate allocates
    rw [left.roster] at allocated
    cases hr' : r'.allocate m with
    | error e' =>
      have refused := right.layout.roster_allocate_error hr'
      rw [right.roster, allocated] at refused
      cases refused
    | ok result' =>
      obtain ⟨r₁, i⟩ := result
      obtain ⟨r₁', i'⟩ := result'
      have allocates' := allocate_eq_ok hr'
      have allocated' := right.layout.roster_allocate allocates'
      rw [right.roster, allocated, Except.ok.injEq, Prod.mk.injEq] at allocated'
      obtain ⟨roster, serial⟩ := allocated'
      -- The new runners are the same: they have the next serial number and the last run id.
      have lastRunId : r₁.lastRunId = r₁'.lastRunId := congrArg Roster.lastRunId roster
      have same : r₁.slot i = r₁'.slot i' := by
        rw [left.layout.slot_allocated allocates, right.layout.slot_allocated allocates', lastRunId,
          serial]
      have starting : (r₁.slot i).state = .starting := by
        rw [left.layout.slot_allocated allocates]
      have added := left.allocated allocates
      have added' := right.allocated allocates'
      rw [← roster] at added'
      refine .allotted hr hr' (fun children => ?_) ?_ (by rw [same])
      · have launched := added'.insertGroup List.mem_cons_self (same ▸ starting) children
        rw [← same] at launched
        exact ⟨_, _, _, _, _, _, added.insertGroup List.mem_cons_self starting children, launched⟩
      · exact release added added' List.mem_cons_self List.mem_cons_self same
          (by simp [starting, RunState.hasProcess])

end Alike
end Registry

namespace Supervisor

open Registry

structure Alike (s s' : Supervisor) : Prop where
  home : s.home = s'.home
  registry : s.registry.Alike s'.registry

structure Matches {α σ : Type} (x y : α × Supervisor × σ) : Prop where
  result : x.1 = y.1
  surroundings : x.2.2 = y.2.2
  alike : x.2.1.Alike y.2.1

/-- What a request first comes to on both sides. Whatever the launcher answers, it is taken alike. -/
inductive Meets : Supervisor × Turn → Supervisor × Turn → Prop
  | done {u u' : Supervisor} (result : Except Error Reply) (alike : u.Alike u') :
      Meets (u, .done result) (u', .done result)
  | launch {u u' : Supervisor} {p p' : Launching} (desc : LaunchDesc)
      (answered : ∀ answer, (u.launched p answer).2 = (u'.launched p' answer).2 ∧
        (u.launched p answer).1.Alike (u'.launched p' answer).1) :
      Meets (u, .launch desc p) (u', .launch desc p')
  | signal {u u' : Supervisor} {p p' : Signalling} (leader : Pid) (same : p.signal = p'.signal)
      (answered : ∀ answer, (u.signalled p answer).2 = (u'.signalled p' answer).2 ∧
        (u.signalled p answer).1.Alike (u'.signalled p' answer).1) :
      Meets (u, .signal leader p) (u', .signal leader p')

variable {σ : Type} {l : Launcher σ} {s s' : Supervisor} {w : σ} {q : Request} {id : RunId}
  {signal : Signal} {after : RunState} {d : Measures} {live grouped live' grouped' : List Nat}
  {a : Roster}

theorem Alike.signalled (p p' : Signalling) (h : s.registry.Refines d live grouped a)
    (h' : s'.registry.Refines d live' grouped' a) (home : s.home = s'.home) (hi : p.slot ∈ live)
    (hi' : p'.slot ∈ live') (same : s.registry.slot p.slot = s'.registry.slot p'.slot)
    (asked : p.signal = p'.signal ∧ p.before = p'.before ∧ p.after = p'.after)
    (process : p.after.hasProcess) (answer : Except Error Unit) :
    (s.signalled p answer).2 = (s'.signalled p' answer).2 ∧
      (s.signalled p answer).1.Alike (s'.signalled p' answer).1 := by
  obtain ⟨signal, before, after⟩ := asked
  cases answer with
  | error e => exact ⟨rfl, home, _, _, _, _, _, _, h, h'⟩
  | ok _ =>
    have left := h.transition hi p.before process
    have right := h'.transition hi' p'.before (after ▸ process)
    rw [same, before, after] at left
    have leader : ((s.registry.transition p.slot p.before p.after).slot p.slot).leader =
        ((s'.registry.transition p'.slot p'.before p'.after).slot p'.slot).leader := by
      rw [leader_transition, leader_transition, same]
    simp only [Supervisor.signalled, before, after, signal] at leader ⊢
    split
    next => exact ⟨by rw [leader], home, _, _, _, _, _, _, left, right⟩
    next => exact ⟨rfl, home, _, _, _, _, _, _, left, right⟩

theorem Meets.serve (h : Meets (s.request q) (s'.request q)) (l : Launcher σ) (w : σ) :
    Matches (s.serve l q w) (s'.serve l q w) := by
  rw [serve_def, serve_def]
  generalize s.request q = x, s'.request q = y at h
  cases h with
  | done result alike => exact ⟨rfl, rfl, alike⟩
  | launch desc answered =>
    obtain ⟨result, alike⟩ := answered (l.launch desc w).1
    exact ⟨congrArg (Except.map Reply.started) result, rfl, alike⟩
  | @signal u u' p p' leader same answered =>
    obtain ⟨result, alike⟩ := answered (l.signal leader p'.signal w).1
    simp only [same]
    generalize u.signalled p _ = x, u'.signalled p' _ = y at result alike ⊢
    obtain ⟨v, x⟩ := x
    obtain ⟨v', y⟩ := y
    cases result
    cases x with
    | error e => exact ⟨rfl, rfl, alike⟩
    | ok leader' =>
      cases leader' with
      | none => exact ⟨rfl, rfl, alike⟩
      | some leader' => exact ⟨rfl, rfl, alike⟩

theorem Alike.meets_control (h : s.Alike s') (control : q.Control id signal after) :
    Meets (s.request q) (s'.request q) := by
  have process : after.hasProcess := by
    cases control <;> rfl
  obtain ⟨d, live, grouped, live', grouped', a, left, right⟩ := h.registry
  have finds := left.finds right id
  simp only [control.request_eq, Supervisor.control]
  generalize s.registry.slotOfRunId? id = x, s'.registry.slotOfRunId? id = y at finds
  cases finds with
  | neither => exact .done _ h
  | @both i i' hi hi' same =>
    simp only [same]
    split
    next => exact .done _ h
    next =>
      split
      next => exact .done _ h
      next =>
        exact .signal _ rfl (Alike.signalled ⟨i, signal, (s'.registry.slot i').state, after⟩
          ⟨i', signal, (s'.registry.slot i').state, after⟩ left right h.home hi hi' same
          ⟨rfl, rfl, rfl⟩ process)

theorem Alike.meets_start (h : s.Alike s') (m : Manifest) :
    Meets (s.request (.start m)) (s'.request (.start m)) := by
  have allots := h.registry.reclaim.2.allocate m
  simp only [request, start, ← h.home]
  generalize s.registry.reclaim.1 = r, s'.registry.reclaim.1 = r' at allots ⊢
  cases LaunchDesc.ofManifest m s.home with
  | error e => exact .done _ h
  | ok desc =>
    cases allots with
    | refused alike failed failed' =>
      simp only [failed, failed']
      exact .done _ ⟨rfl, alike⟩
    | @allotted r₁ r₁' i i' allocated allocated' launched failed runId =>
      simp only [allocated, allocated', runId]
      refine .launch _ fun answer => ?_
      cases answer with
      | ok children => exact ⟨rfl, rfl, launched children⟩
      | error e => exact ⟨rfl, rfl, failed⟩

theorem Alike.meets_remove (h : s.Alike s') (id : RunId) :
    Meets (s.request (.remove id)) (s'.request (.remove id)) := by
  obtain ⟨d, live, grouped, live', grouped', a, left, right⟩ := h.registry
  have finds := left.finds right id
  simp only [request, remove]
  generalize s.registry.slotOfRunId? id = x, s'.registry.slotOfRunId? id = y at finds
  cases finds with
  | neither => exact .done _ h
  | @both i i' hi hi' same =>
    simp only [same]
    by_cases ended : (s'.registry.slot i').state = .terminated
    · simp only [if_pos ended]
      exact .done _ ⟨h.home, Registry.Alike.release left right hi hi' same
        (by simp [same, ended, RunState.hasProcess])⟩
    · simp only [if_neg ended]
      exact .done _ h

theorem Alike.meets (h : s.Alike s') (q : Request) : Meets (s.request q) (s'.request q) := by
  have seen := h.registry.resembles
  cases q with
  | start m => exact h.meets_start m
  | stop id => exact h.meets_control (.stop id)
  | resume id => exact h.meets_control (.resume id)
  | terminate id => exact h.meets_control (.terminate id)
  | remove id => exact h.meets_remove id
  | state id =>
    simp only [request, state, seen.lookupRunId]
    exact .done _ h
  | list =>
    simp only [request, list, seen.toList]
    exact .done _ h
  | collect =>
    obtain ⟨count, cleared⟩ := h.registry.reclaim
    simp only [request, collect, count]
    exact .done _ ⟨h.home, cleared⟩

theorem Alike.advance (h : s.Alike s') (l : Launcher σ) (w : σ) (step : Step) :
    Matches (s.advance l w step) (s'.advance l w step) := by
  cases step with
  | serve q =>
    have served := (h.meets q).serve l w
    exact ⟨congrArg Response.replied served.result, served.surroundings, served.alike⟩
  | hear report =>
    obtain ⟨owned, heard⟩ := h.registry.hear report
    exact ⟨congrArg Response.heard owned, rfl, h.home, heard⟩
  | reap groupOf pending =>
    obtain ⟨applied, left, reaped⟩ := h.registry.reap groupOf pending
    exact ⟨congrArg₂ Response.reaped applied left, rfl, h.home, reaped⟩

theorem Alike.follow (h : s.Alike s') (l : Launcher σ) (w : σ) (steps : List Step) :
    Matches (s.follow l w steps) (s'.follow l w steps) := by
  induction steps generalizing s s' w with
  | nil => exact ⟨rfl, rfl, h⟩
  | cons step steps ih =>
    have first := h.advance l w step
    simp only [Supervisor.follow]
    generalize s.advance l w step = x, s'.advance l w step = y at first ⊢
    obtain ⟨response, u, v⟩ := x
    obtain ⟨response', u', v'⟩ := y
    obtain ⟨rfl, rfl, alike⟩ := first
    have later := ih alike v
    exact ⟨congrArg (response :: ·) later.result, later.surroundings, later.alike⟩

theorem Alike.indistinguishable (h : s.Alike s') : s.Indistinguishable s' := by
  intro σ l w steps
  have followed := h.follow l w steps
  exact ⟨followed.result, followed.surroundings, followed.alike.registry.resembles⟩

end Supervisor
end AppSupervisor
