import AppSupervisor.Proofs.ControlThread.Starts
import AppSupervisor.Proofs.Registry.Relay

namespace AppSupervisor.ControlThread

open Registry

def relay (t : ControlThread) : List Report → ControlThread × List Outcome
  | [] => (t, [])
  | s :: rest =>
    let (t, outcome) := t.step s.groupOf (.notify s.pid s.event)
    let (t, outcomes) := t.relay rest
    (t, outcome :: outcomes)

structure Settlement where
  thread : ControlThread
  result : Outcome
  answers : List Outcome

/-- Status changes are handled inside the call that launches, and then the call returns. -/
def relayThenReturn (t : ControlThread) (groupOf : Pid → Option Pid) (reports : List Report)
    (answer : Except Error Children) : Settlement :=
  let (t, answers) := t.relay reports
  let (t, result) := t.step groupOf (.launched answer)
  ⟨t, result, answers⟩

def returnThenRelay (t : ControlThread) (groupOf : Pid → Option Pid) (reports : List Report)
    (answer : Except Error Children) : Settlement :=
  let (t, result) := t.step groupOf (.launched answer)
  let (t, answers) := t.relay reports
  ⟨t, result, answers⟩

/-- Nothing that may be asked tells the two threads apart. -/
structure Resembles (t u : ControlThread) : Prop where
  registry : t.registry.Resembles u.registry
  lookupPid : ∀ groupOf pid, t.registry.lookupPid groupOf pid = u.registry.lookupPid groupOf pid
  list : t.supervisor.list = u.supervisor.list
  home : t.supervisor.home = u.supervisor.home
  waiting : t.waiting = u.waiting

variable {d : Measures} {t : ControlThread} {r r' : Registry} {live grouped starting : List Nat}
  {m : Manifest} {desc : LaunchDesc} {p : Launching} {waiting : List Waiting}
  {reports : List Report} {answer : Except Error Children}

theorem relay_eq (t : ControlThread) (reports : List Report) :
    t.relay reports = (t.update (t.registry.relay reports).1 t.waiting,
      (t.registry.relay reports).2.map .notified) := by
  induction reports generalizing t with
  | nil => rfl
  | cons s rest ih =>
    simp only [relay, ih]
    rfl

theorem resembles_update (t : ControlThread) (waiting : List Waiting) (same : r.Resembles r') :
    (t.update r waiting).Resembles (t.update r' waiting) where
  registry := same
  lookupPid := same.lookupPid
  list := by
    show (r.toList.filter _).map _ = (r'.toList.filter _).map _
    rw [same.toList]
  home := rfl
  waiting := rfl

theorem settled_of_sound (h : r.Sound d live grouped (p.slot :: starting))
    (apart : ∀ children, answer = .ok children → ∀ s ∈ reports,
      s.pid ≠ children.leader ∧ s.groupOf s.pid ≠ some children.leader)
    (groupOf : Pid → Option Pid) :
    let called := t.update r (.launching p :: waiting)
    let inside := called.relayThenReturn groupOf reports answer
    let after := called.returnThenRelay groupOf reports answer
    after.result =
        .replied ((answer.map fun _ => .started p.runId).mapError (.launchFailed p.app)) ∧
      inside.result = after.result ∧ inside.answers = after.answers ∧
      inside.thread.Resembles after.thread := by
  have top : (t.update r (.launching p :: waiting)).waiting = .launching p :: waiting := rfl
  cases answer with
  | ok children =>
    obtain ⟨same, answers⟩ := h.relay_insertGroup (apart children rfl)
    simp only [relayThenReturn, returnThenRelay, relay_eq, step_launched top]
    exact ⟨rfl, rfl, congrArg _ answers, resembles_update t waiting same⟩
  | error e =>
    obtain ⟨same, answers⟩ := h.relay_release reports
    simp only [relayThenReturn, returnThenRelay, relay_eq, step_unlaunched top]
    exact ⟨rfl, rfl, congrArg _ answers, resembles_update t waiting same⟩

/-- A start with a valid descriptor and a free slot calls for a launch, and it does not matter
whether status changes of other groups are handled inside of that call or after the start. -/
theorem deferred_of_reaches {capacity buckets : UInt64} {maxRunId : UInt32} {home : String}
    {empty : Registry} (created : Registry.create capacity maxRunId buckets = .ok empty)
    (h : Reaches (ofSupervisor ⟨home, empty⟩) t)
    (valid : LaunchDesc.ofManifest m t.supervisor.home = .ok desc)
    (room : t.registry.remaining.length < capacity.toNat)
    (apart : ∀ children, answer = .ok children → ∀ s ∈ reports,
      s.pid ≠ children.leader ∧ s.groupOf s.pid ≠ some children.leader)
    (groupOf : Pid → Option Pid) :
    ∃ called id, t.step groupOf (.request (.start m)) = (called, .launching desc) ∧
      let inside := called.relayThenReturn groupOf reports answer
      let after := called.returnThenRelay groupOf reports answer
      after.result =
          .replied ((answer.map fun _ => .started id).mapError (.launchFailed desc.tag)) ∧
        inside.result = after.result ∧ inside.answers = after.answers ∧
        inside.thread.Resembles after.thread := by
  obtain ⟨d, live, grouped, sound, hcapacity, _⟩ := sound_of_create created h
  obtain ⟨r, i, a, called⟩ := sound.start_room valid groupOf (hcapacity ▸ room)
  exact ⟨_, _, called, settled_of_sound (sound.registry.reclaim.allocate a) apart groupOf⟩

def packed : ControlThread := (ofSupervisor ⟨"/home", .empty 3 4 1⟩).run (fun _ => none) [
  .request (.start notes), .launched (.ok ⟨⟨5⟩, ⟨8⟩⟩),
  .request (.start notes), .launched (.ok ⟨⟨6⟩, ⟨9⟩⟩)]

/-- The newer runner of `packed` ends, and the application of the older one stops. -/
def around : List Report := [⟨fun _ => none, ⟨6⟩, .exited 0⟩, ⟨fun _ => some ⟨5⟩, ⟨8⟩, .stopped⟩,
  ⟨fun _ => some ⟨6⟩, ⟨9⟩, .stopped⟩]

theorem deferred_packed :
    packed.registry.remaining.length < 3 ∧
    (∀ s ∈ around, s.pid ≠ ⟨7⟩ ∧ s.groupOf s.pid ≠ some ⟨7⟩) ∧
    (let called := (packed.step (fun _ => none) (.request (.start notes))).1
      let inside := called.relayThenReturn (fun _ => none) around (.ok ⟨⟨7⟩, ⟨7⟩⟩)
      inside.answers = [.notified true, .notified true, .notified false] ∧
      (inside.thread.registry.toList.map fun x => (x.runId, x.leader, x.state)) =
        [(⟨3⟩, ⟨7⟩, .running), (⟨2⟩, ⟨6⟩, .terminated), (⟨1⟩, ⟨5⟩, .stopped)]) ∧
    ∃ called id, packed.step (fun _ => none) (.request (.start notes)) =
        (called, .launching ⟨"/opt/notes", "notes", "main", "native", "Notes", 8, 6, "/home", []⟩) ∧
      let inside := called.relayThenReturn (fun _ => none) around (.ok ⟨⟨7⟩, ⟨7⟩⟩)
      let after := called.returnThenRelay (fun _ => none) around (.ok ⟨⟨7⟩, ⟨7⟩⟩)
      after.result = .replied (.ok (.started id)) ∧ inside.result = after.result ∧
        inside.answers = after.answers ∧ inside.thread.Resembles after.thread := by
  have room : packed.registry.remaining.length < (3 : UInt64).toNat := by decide +kernel
  have apart : ∀ s ∈ around, s.pid ≠ ⟨7⟩ ∧ s.groupOf s.pid ≠ some ⟨7⟩ := by
    simp [around]
  have reached : Reaches (ofSupervisor ⟨"/home", .empty 3 4 1⟩) packed := reaches_run _ _ _
  have valid : LaunchDesc.ofManifest notes packed.supervisor.home =
    .ok ⟨"/opt/notes", "notes", "main", "native", "Notes", 8, 6, "/home", []⟩ := rfl
  have accepted : ∀ children, (.ok ⟨⟨7⟩, ⟨7⟩⟩ : Except Error Children) = .ok children →
      ∀ s ∈ around, s.pid ≠ children.leader ∧ s.groupOf s.pid ≠ some children.leader :=
    fun _ same => Except.ok.inj same ▸ apart
  exact ⟨room, apart, ⟨rfl, by decide +kernel⟩, deferred_of_reaches
    (show Registry.create 3 4 1 = .ok (.empty 3 4 1) from rfl) reached valid room accepted
    fun _ => none⟩

end AppSupervisor.ControlThread
