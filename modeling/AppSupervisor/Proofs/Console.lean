import AppSupervisor.Proofs.Console.Lines
import AppSupervisor.Proofs.ControlThread.Starts
import AppSupervisor.Proofs.Json.Printable
import AppSupervisor.Proofs.Json.RoundTrip
import AppSupervisor.Proofs.Registry.Reaping

namespace AppSupervisor

namespace ControlThread

open Registry

variable {t : ControlThread} {d : Measures} {live grouped : List Nat}

theorem reaches_relay (t : ControlThread) (reports : List Report) :
    Reaches t (t.update (t.registry.relay reports).1 t.waiting) := by
  induction reports generalizing t with
  | nil => exact .refl t
  | cons s reports ih => exact ((Reaches.refl t).step s.groupOf (.notify s.pid s.event)).trans (ih _)

theorem reaches_reap (t : ControlThread) (groupOf : Pid → Option Pid) (pending : Pending) :
    Reaches t (t.update (t.registry.reap groupOf pending).registry t.waiting) := by
  -- Each visit relays reports, whatever the chains lead to, so nothing need be known of them.
  unfold reap
  refine Index.visitAll_induction (Q := fun s : Reaping =>
    Reaches t (t.update s.registry t.waiting)) (fun s i h => ?_) (.refl t)
  rw [Reaping.collect_eq]
  exact h.trans (reaches_relay (t.update s.registry t.waiting) _)

theorem Sound.collect_lt (h : t.Sound d live grouped) : t.supervisor.collect.2 < UInt32.size := by
  have layout := h.registry.layout
  obtain ⟨_, _, _, _, count⟩ := layout.reclaim h.registry.unended
  have few : t.supervisor.collect.2 ≤ live.length :=
    Nat.le_trans (Nat.le_of_eq count) (List.length_filter_le _ _)
  have room := layout.length_add
  have small := d.capacity_le
  have word := d.maxRunId.toNat_lt
  rw [UInt32.size]
  omega

end ControlThread

namespace Console

variable {σ : Type} {e : Surroundings σ} {c c' c₁ c₂ c₃ : Console σ} {line text file : String}
  {more : List String} {v : Json} {d : Measures} {waiting : List Waiting} {q : Request} {id : RunId}
  {n depth : Nat} {result : Except Error Reply}

/-- The child signal comes so many times, and each time the pending statuses are collected. -/
inductive Signalled (e : Surroundings σ) : Nat → Console σ → Console σ → Prop
  | none (c : Console σ) : Signalled e 0 c c
  | next {n : Nat} {c c' : Console σ} {s : Registry.Reaping}
      (reaped : c.supervisor.registry.reap (e.groupOf c.world) (e.pending c.world) = s)
      (others : Signalled e n
        ⟨{ c.supervisor with registry := s.registry }, e.collected s.pending c.world⟩ c') :
      Signalled e (n + 1) c c'

/-- The console goes on after the child signals that come now. -/
def Interrupted (e : Surroundings σ) (c c' : Console σ) : Prop :=
  ∃ n w, e.childSignals c.world = (n, w) ∧ Signalled e n ⟨c.supervisor, w⟩ c'

/-- How a request is served: without the launcher, or by its answer to one call or to two. -/
inductive Serves (e : Surroundings σ) (c : Console σ) (q : Request) :
    Except Error Reply → Console σ → Prop
  | done {s : Supervisor} {result : Except Error Reply}
      (asked : c.supervisor.request q = (s, .done result)) : Serves e c q result ⟨s, c.world⟩
  | launched {s s' : Supervisor} {desc : LaunchDesc} {p : Launching} {c₁ : Console σ}
      {answer : Except Error Children} {w : σ} {result : Except Error RunId}
      (asked : c.supervisor.request q = (s, .launch desc p))
      (before : Interrupted e ⟨s, c.world⟩ c₁)
      (called : e.launcher.launch desc c₁.world = (answer, w))
      (ended : c₁.supervisor.launched p answer = (s', result)) :
      Serves e c q (result.map .started) ⟨s', w⟩
  | unsent {s s' : Supervisor} {leader : Pid} {p : Signalling} {c₁ c₂ : Console σ}
      {answer : Except Error Unit} {w : σ} {fault : Error}
      (asked : c.supervisor.request q = (s, .signal leader p))
      (before : Interrupted e ⟨s, c.world⟩ c₁)
      (called : e.launcher.signal leader p.signal c₁.world = (answer, w))
      (meanwhile : Interrupted e ⟨c₁.supervisor, w⟩ c₂)
      (ended : c₂.supervisor.signalled p answer = (s', .error fault)) :
      Serves e c q (.error fault) ⟨s', c₂.world⟩
  | sent {s s' : Supervisor} {leader : Pid} {p : Signalling} {c₁ c₂ : Console σ}
      {answer : Except Error Unit} {w : σ}
      (asked : c.supervisor.request q = (s, .signal leader p))
      (before : Interrupted e ⟨s, c.world⟩ c₁)
      (called : e.launcher.signal leader p.signal c₁.world = (answer, w))
      (meanwhile : Interrupted e ⟨c₁.supervisor, w⟩ c₂)
      (ended : c₂.supervisor.signalled p answer = (s', .ok none)) :
      Serves e c q (.ok .accepted) ⟨s', c₂.world⟩
  /-- The second call continues a stopped group, whatever its answer. -/
  | continued {s s' : Supervisor} {leader leader' : Pid} {p : Signalling} {c₁ c₂ c₃ : Console σ}
      {answer answer' : Except Error Unit} {w w' : σ}
      (asked : c.supervisor.request q = (s, .signal leader p))
      (before : Interrupted e ⟨s, c.world⟩ c₁)
      (called : e.launcher.signal leader p.signal c₁.world = (answer, w))
      (meanwhile : Interrupted e ⟨c₁.supervisor, w⟩ c₂)
      (ended : c₂.supervisor.signalled p answer = (s', .ok (some leader')))
      (again : e.launcher.signal leader' .cont c₂.world = (answer', w'))
      (after : Interrupted e ⟨s', w'⟩ c₃) :
      Serves e c q (.ok .accepted) c₃

inductive Asks (id : RunId) : RequestLine → Request → Prop
  | terminate : Asks id (.terminate id) (.terminate id)
  | stop : Asks id (.stop id) (.stop id)
  | resume : Asks id (.resume id) (.resume id)

def recordObject (r : Record) : Json :=
  .object [("id", .string r.id), ("runid", .ofInt r.runId.toNat), ("state", .string r.state.name)]

/-- What a console makes of a request: the value that is printed or what went wrong, and the console
that it leaves. -/
inductive Handles (e : Surroundings σ) (c : Console σ) :
    RequestLine → Except Error Json → Console σ → Prop
  | unread {file : String} {fault : IoFault} (unread : e.text file c.world = .error fault) :
      Handles e c (.start file) (.error (.io fault)) c
  | unusable {file text : String} {fault : Error} (read : e.text file c.world = .ok text)
      (unusable : Manifest.ofJson text = .error fault) :
      Handles e c (.start file) (.error fault) c
  | unstarted {file text : String} {m : Manifest} {fault : Error} {c' : Console σ}
      (read : e.text file c.world = .ok text) (manifest : Manifest.ofJson text = .ok m)
      (serves : Serves e c (.start m) (.error fault) c') :
      Handles e c (.start file) (.error fault) c'
  | started {file text : String} {m : Manifest} {id : RunId} {c' : Console σ}
      (read : e.text file c.world = .ok text) (manifest : Manifest.ofJson text = .ok m)
      (serves : Serves e c (.start m) (.ok (.started id)) c') :
      Handles e c (.start file) (.ok (.object [("runid", .ofInt id.toNat)])) c'
  | denied {line : RequestLine} {q : Request} {id : RunId} {fault : Error} {c' : Console σ}
      (asks : Asks id line q) (serves : Serves e c q (.error fault) c') :
      Handles e c line (.error fault) c'
  | accepted {line : RequestLine} {q : Request} {id : RunId} {c' : Console σ}
      (asks : Asks id line q) (serves : Serves e c q (.ok .accepted) c') :
      Handles e c line (.ok (.object [("runid", .ofInt id.toNat)])) c'
  | unknown {id : RunId} {fault : Error} (unknown : c.supervisor.state id = .error fault) :
      Handles e c (.state id) (.error fault) c
  | known {id : RunId} {r : Record} (known : c.supervisor.state id = .ok r) :
      Handles e c (.state id) (.ok (recordObject r)) c
  | listed : Handles e c .list (.ok (.array (c.supervisor.list.map recordObject))) c
  | collected {s : Supervisor} {n : Nat} (collected : c.supervisor.collect = (s, n)) :
      Handles e c .collect (.ok (.object [("collected", .ofInt n)])) ⟨s, c.world⟩

inductive Responds (e : Surroundings σ) (c : Console σ) (line : String) : Json → Console σ → Prop
  | rejected {fault : Error} (parsed : RequestLine.parse line = .error fault) :
      Responds e c line (.object [("error", .string (fault.describe (e.wording c.world)))]) c
  | failed {request : RequestLine} {fault : Error} {c₁ c' : Console σ}
      (parsed : RequestLine.parse line = .ok request) (before : Interrupted e c c₁)
      (handles : Handles e c₁ request (.error fault) c') :
      Responds e c line (.object [("error", .string (fault.describe (e.wording c'.world)))]) c'
  | served {request : RequestLine} {v : Json} {c₁ c' : Console σ}
      (parsed : RequestLine.parse line = .ok request) (before : Interrupted e c c₁)
      (handles : Handles e c₁ request (.ok v) c') : Responds e c line v c'

/-- The text is a line of its own and a JSON value. -/
structure Framed (text : String) (v : Json) : Prop where
  unbroken : '\n' ∉ text.toList ∧ '\r' ∉ text.toList
  parse : Json.parse text = .ok v

inductive Session (e : Surroundings σ) : Console σ → List String → List String → Console σ → Prop
  | nil (c : Console σ) : Session e c [] [] c
  | cons {c c' c'' : Console σ} {line text : String} {v : Json} {lines texts : List String}
      (responds : Responds e c line v c') (framed : Framed text v)
      (others : Session e c' lines texts c'') :
      Session e c (line :: lines) (text :: texts) c''

section Serving

theorem signalled_reapTimes (e : Surroundings σ) (n : Nat) (c : Console σ) :
    Signalled e n c (reapTimes e n c) := by
  induction n generalizing c with
  | zero => exact .none c
  | succ n ih => exact .next rfl (ih _)

theorem interrupted_interrupted (e : Surroundings σ) (c : Console σ) :
    Interrupted e c (c.interrupted e) :=
  ⟨_, _, rfl, signalled_reapTimes e _ _⟩

theorem serves_serve (e : Surroundings σ) (c : Console σ) (q : Request) :
    Serves e c q (c.serve e q).1 (c.serve e q).2 := by
  rcases asked : c.supervisor.request q with ⟨s, result | ⟨desc, p⟩ | ⟨leader, p⟩⟩
  -- The outcome of each call is named before the next, in the order in which they are made.
  · simp only [serve, Supervisor.serveAmid, asked]
    exact .done asked
  · simp only [serve, Supervisor.serveAmid, asked]
    exact .launched asked (interrupted_interrupted e _) rfl rfl
  · have before := interrupted_interrupted e ⟨s, c.world⟩
    generalize first : interrupted e ⟨s, c.world⟩ = c₁ at before
    rcases called : e.launcher.signal leader p.signal c₁.world with ⟨answer, w⟩
    have meanwhile := interrupted_interrupted e ⟨c₁.supervisor, w⟩
    generalize second : interrupted e ⟨c₁.supervisor, w⟩ = c₂ at meanwhile
    rcases ended : c₂.supervisor.signalled p answer with ⟨s', fault | _ | leader'⟩
    all_goals simp only [serve, Supervisor.serveAmid, asked, first, called, second, ended]
    · exact .unsent asked before called meanwhile ended
    · exact .sent asked before called meanwhile ended
    · exact .continued asked before called meanwhile ended rfl (interrupted_interrupted e _)

theorem turn_start {s s' : Supervisor} {m : Manifest} {turn : Turn}
    (asked : s.request (.start m) = (s', turn)) :
    (∃ fault, turn = .done (.error fault)) ∨ ∃ desc p, turn = .launch desc p := by
  simp only [Supervisor.request, Supervisor.start] at asked
  split at asked
  next =>
    cases asked
    exact .inl ⟨_, rfl⟩
  next =>
    split at asked
    next =>
      cases asked
      exact .inl ⟨_, rfl⟩
    next =>
      cases asked
      exact .inr ⟨_, _, rfl⟩

theorem Serves.started {m : Manifest} {reply : Reply}
    (h : Serves e c (.start m) (.ok reply) c') : ∃ id, reply = .started id := by
  generalize answered : Except.ok reply = result at h
  cases h with
  | done asked =>
    subst answered
    rcases turn_start asked with ⟨_, turn⟩ | ⟨_, _, turn⟩ <;> cases turn
  | @launched _ _ _ _ _ _ _ result =>
    cases result with
    | error => cases answered
    | ok id =>
      cases answered
      exact ⟨id, rfl⟩
  | unsent => cases answered
  | sent asked => rcases turn_start asked with ⟨_, turn⟩ | ⟨_, _, turn⟩ <;> cases turn
  | continued asked => rcases turn_start asked with ⟨_, turn⟩ | ⟨_, _, turn⟩ <;> cases turn

theorem Asks.controls {line : RequestLine} (asks : Asks id line q) (s : Supervisor) :
    ∃ signal after turn, s.request q = (s, turn) ∧ s.Controls id signal after turn := by
  cases asks <;> exact ⟨_, _, _, rfl, s.controls_control ..⟩

theorem Serves.accepted {line : RequestLine} {reply : Reply} (asks : Asks id line q)
    (h : Serves e c q (.ok reply) c') : reply = .accepted := by
  obtain ⟨signal, after, turn, requested, controls⟩ := asks.controls c.supervisor
  generalize answered : Except.ok reply = result at h
  cases h with
  | done asked =>
    cases requested.symm.trans asked
    cases controls with
    | unknown => cases answered
    | denied => cases answered
    | already =>
      cases answered
      rfl
  | launched asked =>
    cases requested.symm.trans asked
    cases controls
  | unsent => cases answered
  | sent | continued =>
    cases answered
    rfl

theorem ofMembers_members (r : Record) : Json.ofMembers r.members = recordObject r := rfl

theorem handles_serve {line : RequestLine} (asks : Asks id line q) :
    Handles e c line ((c.serve e q).1.map (replyJson id)) (c.serve e q).2 := by
  have serves := serves_serve e c q
  cases served : (c.serve e q).1 with
  | error fault =>
    rw [served] at serves
    exact .denied asks serves
  | ok reply =>
    rw [served] at serves
    obtain rfl := serves.accepted asks
    exact .accepted asks serves

theorem handles_start (e : Surroundings σ) (c : Console σ) (file : String) :
    Handles e c (.start file) (c.handle e (.start file)).1 (c.handle e (.start file)).2 := by
  rcases read : e.text file c.world with fault | text
  · simp only [handle, requestOf, read]
    exact .unread read
  rcases manifest : Manifest.ofJson text with fault | m
  · simp only [handle, requestOf, read, Except.mapError, bind, Except.bind, manifest]
    exact .unusable read manifest
  · simp only [handle, requestOf, read, Except.mapError, bind, Except.bind, manifest, pure, Except.pure]
    have serves := serves_serve e c (.start m)
    cases served : (c.serve e (.start m)).1 with
    | error fault =>
      rw [served] at serves
      exact .unstarted read manifest serves
    | ok reply =>
      rw [served] at serves
      obtain ⟨id, rfl⟩ := serves.started
      exact .started read manifest serves

theorem handles_handle (e : Surroundings σ) (c : Console σ) {line : RequestLine} (stays : line ≠ .quit) :
    Handles e c line (c.handle e line).1 (c.handle e line).2 := by
  cases line with
  | start file => exact handles_start e c file
  | terminate id => exact handles_serve .terminate
  | stop id => exact handles_serve .stop
  | resume id => exact handles_serve .resume
  | state id =>
    simp only [handle, requestOf, serve, Supervisor.serveAmid, Supervisor.request]
    cases known : c.supervisor.state id with
    | error fault => exact .unknown known
    | ok r => exact .known known
  | list =>
    simp only [handle, requestOf, serve, Supervisor.serveAmid, Supervisor.request, Except.map,
      replyJson, ofMembers_members]
    exact .listed
  | collect => exact .collected rfl
  | quit => exact absurd rfl stays

end Serving

def Steady (d : Measures) (waiting : List Waiting) (c : Console σ) : Prop :=
  ∃ live grouped, ControlThread.Sound d ⟨c.supervisor, waiting⟩ live grouped

section Steady

open ControlThread (step)

theorem Steady.step {waiting' : List Waiting} {s : Supervisor} (h : Steady d waiting c) (m : Move) (w : σ)
    (stepped : (step (fun _ => none) ⟨c.supervisor, waiting⟩ m).1 = ⟨s, waiting'⟩) :
    Steady d waiting' ⟨s, w⟩ := by
  obtain ⟨live, grouped, sound⟩ := h
  have reaches := (ControlThread.Reaches.refl ⟨c.supervisor, waiting⟩).step (fun _ => none) m
  rw [stepped] at reaches
  exact reaches.sound sound

theorem Steady.launches {s : Supervisor} {desc : LaunchDesc} {p : Launching}
    (h : Steady d waiting c) (asked : c.supervisor.request q = (s, .launch desc p)) (w : σ) :
    Steady d (.launching p :: waiting) ⟨s, w⟩ :=
  h.step (.request q) w (by simp only [ControlThread.step, asked])

theorem Steady.signals {s : Supervisor} {leader : Pid} {p : Signalling}
    (h : Steady d waiting c) (asked : c.supervisor.request q = (s, .signal leader p)) (w : σ) :
    Steady d (.signalling p :: waiting) ⟨s, w⟩ :=
  h.step (.request q) w (by simp only [ControlThread.step, asked])

theorem Signalled.steady (h : Signalled e n c c') (steady : Steady d waiting c) :
    Steady d waiting c' := by
  induction h with
  | none => exact steady
  | @next _ c _ _ reaped _ ih =>
    subst reaped
    obtain ⟨live, grouped, sound⟩ := steady
    exact ih ((ControlThread.reaches_reap ⟨c.supervisor, waiting⟩ _ _).sound sound)

theorem Interrupted.steady (h : Interrupted e c c') (steady : Steady d waiting c) :
    Steady d waiting c' := by
  obtain ⟨n, w, _, signalled⟩ := h
  exact signalled.steady steady

theorem Serves.steady (h : Serves e c q result c') (steady : Steady d waiting c) :
    Steady d waiting c' := by
  cases h with
  | done asked => exact steady.step (.request q) _ (by simp only [ControlThread.step, asked])
  | @launched _ _ _ _ _ answer _ _ asked before _ ended =>
    have waits := before.steady (steady.launches asked _)
    exact waits.step (.launched answer) _ (by simp only [ControlThread.step, ended])
  | @unsent _ _ _ _ _ _ answer _ _ asked before _ meanwhile ended
  | @sent _ _ _ _ _ _ answer _ asked before _ meanwhile ended =>
    have waits := before.steady (steady.signals asked _)
    exact (meanwhile.steady waits).step (.signalled answer) _
      (by simp only [ControlThread.step, ended])
  | @continued _ s' _ _ _ _ _ _ answer answer' _ w' asked before _ meanwhile ended _ after =>
    have waits := before.steady (steady.signals asked _)
    have again : Steady d (.continuing :: waiting) ⟨s', w'⟩ :=
      (meanwhile.steady waits).step (.signalled answer) w' (by simp only [ControlThread.step, ended])
    exact (after.steady again).step (.signalled answer') _ rfl

theorem Handles.steady {line : RequestLine} {result : Except Error Json}
    (h : Handles e c line result c') (steady : Steady d waiting c) : Steady d waiting c' := by
  cases h with
  | unread | unusable | unknown | known | listed => exact steady
  | unstarted _ _ serves | started _ _ serves | denied _ serves | accepted _ serves =>
    exact serves.steady steady
  | collected collected =>
    exact steady.step (.request .collect) _
      (by simp only [ControlThread.step, Supervisor.request, collected])

theorem Responds.steady (h : Responds e c line v c') (steady : Steady d waiting c) :
    Steady d waiting c' := by
  cases h with
  | rejected => exact steady
  | failed _ before handles | served _ before handles =>
    exact handles.steady (before.steady steady)

end Steady

section Values

open Json (Readable)

theorem readable_ofInt {n : Nat} (small : n < UInt32.size) : Readable depth (.ofInt n) := by
  rw [UInt32.size] at small
  exact .integer ⟨by omega, by omega⟩

theorem readable_single {key : String} (h : Readable depth v) :
    Readable (depth + 1) (.object [(key, v)]) :=
  .object (by simp) (by simpa using h)

theorem readable_record (r : Record) : Readable (depth + 1) (recordObject r) := by
  have keys : ["id", "runid", "state"].Nodup := by decide
  have runId : Readable depth (.ofInt r.runId.toNat) := readable_ofInt r.runId.val.toNat_lt
  exact .object keys (by simpa using ⟨Readable.string _, runId, Readable.string _⟩)

/-- A count that is printed has 32 bits, since a registry that large cannot be made. -/
theorem Handles.readable {line : RequestLine} (h : Handles e c line (.ok v) c')
    (steady : Steady d waiting c) : Readable (depth + 2) v := by
  cases h with
  | started => exact readable_single (readable_ofInt (RunId.val _).toNat_lt)
  | accepted => exact readable_single (readable_ofInt (RunId.val _).toNat_lt)
  | known => exact readable_record _
  | listed =>
    refine .array fun v hv => ?_
    obtain ⟨r, _, rfl⟩ := List.mem_map.mp hv
    exact readable_record r
  | collected collected =>
    obtain ⟨live, grouped, sound⟩ := steady
    have few := sound.collect_lt
    rw [show ControlThread.supervisor _ = c.supervisor from rfl, collected] at few
    exact readable_single (readable_ofInt few)

theorem Responds.framed (h : Responds e c line v c') (steady : Steady d waiting c) :
    Framed v.render v := by
  have readable : Readable Json.maxDepth v := by
    cases h with
    | rejected | failed => exact readable_single (.string _)
    | served _ before handles => exact handles.readable (before.steady steady)
  exact ⟨Json.render_one_line v, Json.parse_render readable⟩

end Values

theorem responds_answer (e : Surroundings σ) (c : Console σ) (shown : ¬line.toList.all isBlank)
    (stays : RequestLine.parse line ≠ .ok .quit) :
    ∃ v c', c.answer e line = (.reply v.render, c') ∧ Responds e c line v c' := by
  rw [answer, if_neg shown]
  split
  next quits => exact absurd quits stays
  next request _ parsed =>
    have other : request ≠ .quit := by
      rintro rfl
      exact stays parsed
    have handles := handles_handle e (c.interrupted e) other
    split
    next handled =>
      rw [handled] at handles
      exact ⟨_, _, rfl, .served parsed (interrupted_interrupted e c) handles⟩
    next handled =>
      rw [handled] at handles
      exact ⟨_, _, rfl, .failed parsed (interrupted_interrupted e c) handles⟩
  next fault parsed => exact ⟨_, _, rfl, .rejected parsed⟩

theorem session_of_asked (steady : Steady d waiting c)
    (wanted : ∀ line ∈ more, ¬line.toList.all isBlank ∧ RequestLine.parse line ≠ .ok .quit) :
    Session e c more (c.answerAll e more).1 (c.answerAll e more).2 := by
  induction more generalizing c with
  | nil => exact .nil c
  | cons line more ih =>
    obtain ⟨⟨shown, stays⟩, others⟩ := List.forall_mem_cons.mp wanted
    obtain ⟨v, c', answered, responds⟩ := responds_answer e c shown stays
    rw [answerAll, answered]
    exact .cons responds (responds.framed steady) (ih (responds.steady steady) others)

/-- Whatever a supervisor was asked, told and answered before, and whatever surrounds the console: of
a text the lines that are not blank and come before the first that quits are replied to in their
order, each by one line that is a JSON value, and no other line has any effect. -/
theorem session_of_reaches {capacity buckets : UInt64} {maxRunId : UInt32} {home : String}
    {r : Registry} {t : ControlThread} (created : Registry.create capacity maxRunId buckets = .ok r)
    (h : ControlThread.Reaches (.ofSupervisor ⟨home, r⟩) t) (e : Surroundings σ) (w : σ)
    (text : String) :
    let c : Console σ := ⟨t.supervisor, w⟩
    c.answerAll e (lines text) = c.answerAll e (asked (pieces text)) ∧
    Session e c (asked (pieces text)) (c.answerAll e (lines text)).1
      (c.answerAll e (lines text)).2 := by
  intro c
  have same : c.answerAll e (lines text) = c.answerAll e (asked (pieces text)) := by
    rw [answerAll_pieces, answerAll_asked]
  obtain ⟨d, live, grouped, sound, _⟩ := ControlThread.sound_of_create created h
  refine ⟨same, ?_⟩
  rw [same]
  exact session_of_asked ⟨live, grouped, sound⟩ fun line hl => mem_asked hl

def obey (pid : Pid) (signal : Signal) : WaitStatus :=
  if signal = .term then .signaled pid signal false
  else if signal = .stop then .stopped pid signal else .continued pid

theorem pid?_obey (pid : Pid) (signal : Signal) : (obey pid signal).pid? = some pid := by
  unfold obey
  split
  next => rfl
  next => split <;> rfl

def manifestText (id type : String) : String :=
  "\x7b\"path\":\"/\",\"id\":\"" ++ id ++ "\",\"content\":\"c\",\"type\":\"" ++ type ++
    "\",\"public\":\x7b\"id\":\"" ++ id ++ "\",\"name\":\"\",\"width\":1,\"height\":1\x7d\x7d"

/-- Every program started is process 9, and the child signal comes whenever it can. -/
def desk : Surroundings Registry.Pending where
  launcher :=
    let spawner : Spawner Registry.Pending :=
      ⟨fun _ w => (.ok ⟨9⟩, w), fun group signal w =>
        (.ok (), w.set group [obey group signal] (by simpa using pid?_obey group signal))⟩
    spawner.launcher (.ofList [("native", ["run"])])
  text file _ :=
    if file = "notes" then .ok (manifestText "a\\nb" "native")
    else if file = "page" then .ok (manifestText "page" "text/html") else .error .notFound
  wording _ _ := "malformed"
  childSignals w := (1, w)
  groupOf _ := some
  pending w := w
  collected left _ := left

theorem session_mixed :
    let c : Console Registry.Pending := ⟨ControlThread.worn.supervisor, .none⟩
    let text := "\nstart page\n start notes\r\nstop 2\nlist\ncontinue 2\n\t\nterminate 2\n" ++
      "collect\nstate 2\n\"list\"\nquit\nstop 1\n"
    asked (pieces text) = ["start page", " start notes\r", "stop 2", "list", "continue 2",
      "terminate 2", "collect", "state 2", "\"list\""] ∧
    ((c.answerAll desk (lines text)).1 =
      ["\x7b\"error\":\"failed to launch page: invalid argument: no launcher for type text/html\"\x7d",
        "\x7b\"runid\":2\x7d",
        "\x7b\"runid\":2\x7d",
        "[\x7b\"id\":\"a\\nb\",\"runid\":2,\"state\":\"stopped\"\x7d," ++
          "\x7b\"id\":\"notes\",\"runid\":1,\"state\":\"running\"\x7d]",
        "\x7b\"runid\":2\x7d",
        "\x7b\"runid\":2\x7d",
        "\x7b\"collected\":1\x7d",
        "\x7b\"error\":\"no runner with id 2\"\x7d",
        "\x7b\"error\":\"an error occured: unknown request: \\\"list\\\"\"\x7d"] ∧
    (c.answerAll desk (lines text)).2.supervisor.list = [⟨⟨1⟩, .running, "notes"⟩]) ∧
    Session desk c (asked (pieces text)) (c.answerAll desk (lines text)).1
      (c.answerAll desk (lines text)).2 :=
  ⟨by decide +kernel, by decide +kernel, (session_of_reaches
    (show Registry.create 2 4 2 = .ok (.empty 2 4 2) from rfl)
    (ControlThread.reaches_run (fun _ => none) _ _) desk .none _).2⟩

end Console
end AppSupervisor
