import AppSupervisor.Supervisor
import AppSupervisor.Template

namespace AppSupervisor

structure Launcher (σ : Type) where
  launch : LaunchDesc → σ → Except Error Children × σ
  signal : Pid → Signal → σ → Except Error Unit × σ

/-- Starts programs, each as the leader of a new process group. -/
structure Spawner (σ : Type) where
  spawn : Invocation → σ → Except IoFault Pid × σ
  signalGroup : Pid → Signal → σ → Except SystemFault Unit × σ

def Spawner.launcher {σ : Type} (spawner : Spawner σ) (templates : Templates) : Launcher σ where
  launch desc w :=
    match desc.invocation templates with
    | .error e => (.error (.invalid e), w)
    | .ok invocation =>
      match spawner.spawn invocation w with
      | (.error e, w) => (.error (.io e), w)
      | (.ok pid, w) => (.ok ⟨pid, pid⟩, w)
  signal group signal w :=
    let (answer, w) := spawner.signalGroup group signal w
    (answer.mapError .system, w)

namespace Supervisor

variable {σ : Type}

/-- Serves a request from beginning to end. What happens to the supervisor `meanwhile` happens
before the launcher is called, and between a signal and what is made of it. -/
def serveAmid (meanwhile : Supervisor → σ → Supervisor × σ) (l : Launcher σ) (s : Supervisor)
    (request : Request) (w : σ) : Except Error Reply × Supervisor × σ :=
  match s.request request with
  | (s, .done result) => (result, s, w)
  | (s, .launch desc p) =>
    -- Status changes are held back while the launcher works, until the runner is indexed.
    let (s, w) := meanwhile s w
    let (answer, w) := l.launch desc w
    let (s, result) := s.launched p answer
    (result.map .started, s, w)
  | (s, .signal leader p) =>
    let (s, w) := meanwhile s w
    let (answer, w) := l.signal leader p.signal w
    let (s, w) := meanwhile s w
    match s.signalled p answer with
    | (s, .error e) => (.error e, s, w)
    | (s, .ok none) => (.ok .accepted, s, w)
    | (s, .ok (some leader)) =>
      let (s, w) := meanwhile s (l.signal leader .cont w).2
      (.ok .accepted, s, w)

def serve (l : Launcher σ) (s : Supervisor) (request : Request) (w : σ) :
    Except Error Reply × Supervisor × σ :=
  s.serveAmid Prod.mk l request w

theorem serve_def (l : Launcher σ) (s : Supervisor) (request : Request) (w : σ) :
    s.serve l request w =
      match s.request request with
      | (s, .done result) => (result, s, w)
      | (s, .launch desc p) =>
        let (answer, w) := l.launch desc w
        let (s, result) := s.launched p answer
        (result.map .started, s, w)
      | (s, .signal leader p) =>
        let (answer, w) := l.signal leader p.signal w
        match s.signalled p answer with
        | (s, .error e) => (.error e, s, w)
        | (s, .ok none) => (.ok .accepted, s, w)
        | (s, .ok (some leader)) => (.ok .accepted, s, (l.signal leader .cont w).2) :=
  rfl

end Supervisor
end AppSupervisor
