import AppSupervisor.Launcher
import AppSupervisor.Request

namespace AppSupervisor

/-- All that a console depends on, in a state of type `σ`. -/
structure Surroundings (σ : Type) where
  launcher : Launcher σ
  text : String → σ → Except IoFault String
  wording : σ → Json.Fault → String
  /-- How often the child signal comes until the console goes on. -/
  childSignals : σ → Nat × σ
  groupOf : σ → Pid → Option Pid
  pending : σ → Registry.Pending
  collected : Registry.Pending → σ → σ

structure Console (σ : Type) where
  supervisor : Supervisor
  world : σ

namespace Console

variable {σ : Type} (e : Surroundings σ) (c : Console σ)

def reap : Console σ × Nat :=
  let s := c.supervisor.registry.reap (e.groupOf c.world) (e.pending c.world)
  (⟨{ c.supervisor with registry := s.registry }, e.collected s.pending c.world⟩, s.applied)

def reapTimes : Nat → Console σ → Console σ
  | 0, c => c
  | n + 1, c => reapTimes n (c.reap e).1

def interrupted : Console σ :=
  let (n, w) := e.childSignals c.world
  reapTimes e n ⟨c.supervisor, w⟩

def serve (request : Request) : Except Error Reply × Console σ :=
  let (result, s, w) := c.supervisor.serveAmid
    (fun s w => let c := interrupted e ⟨s, w⟩; (c.supervisor, c.world)) e.launcher request c.world
  (result, ⟨s, w⟩)

/-- The JSON form of a reply; a request that was just accepted is answered with its run id. -/
def replyJson (id : RunId) : Reply → Json
  | .started id => .ofMembers [("runid", .ofInt id.toNat)]
  | .accepted => .ofMembers [("runid", .ofInt id.toNat)]
  | .record r => .ofMembers r.members
  | .records rs => .array (rs.map fun r => .ofMembers r.members)
  | .collected n => .ofMembers [("collected", .ofInt n)]

def errorJson (wording : Json.Fault → String) (fault : Error) : Json :=
  .ofMembers [("error", .string (fault.describe wording))]

def requestOf (read : String → Except IoFault String) :
    RequestLine → Except Error (Option (Request × RunId))
  | .start file => do
    let text ← (read file).mapError .io
    return some (.start (← Manifest.ofJson text), ⟨0⟩)
  | .terminate id => .ok (some (.terminate id, id))
  | .stop id => .ok (some (.stop id, id))
  | .resume id => .ok (some (.resume id, id))
  | .state id => .ok (some (.state id, id))
  | .list => .ok (some (.list, ⟨0⟩))
  | .collect => .ok (some (.collect, ⟨0⟩))
  | .quit => .ok none

def handle (line : RequestLine) : Except Error Json × Console σ :=
  match requestOf (e.text · c.world) line with
  | .error fault => (.error fault, c)
  | .ok none => (.ok .null, c)
  | .ok (some (request, id)) =>
    let (result, c) := c.serve e request
    (result.map (replyJson id), c)

inductive Response
  | silence
  | reply (text : String)
  | quit
  deriving DecidableEq, Repr

/-- Answers a line of input, after the child signals that come while the console waits for it. -/
def answer (line : String) : Response × Console σ :=
  if line.toList.all isBlank then (.silence, c)
  else
    match RequestLine.parse line with
    | .ok .quit => (.quit, c)
    | .ok request =>
      match (c.interrupted e).handle e request with
      | (.ok v, c) => (.reply v.render, c)
      | (.error fault, c) => (.reply (errorJson (e.wording c.world) fault).render, c)
    | .error fault => (.reply (errorJson (e.wording c.world) fault).render, c)

def answerAll (c : Console σ) : List String → List String × Console σ
  | [] => ([], c)
  | line :: lines =>
    match c.answer e line with
    | (.silence, c) => c.answerAll lines
    | (.reply text, c) =>
      let (texts, c) := c.answerAll lines
      (text :: texts, c)
    | (.quit, c) => ([], c)

def linesFrom (line : List Char) : List Char → List String
  | [] => if line.isEmpty then [] else [String.ofList line.reverse]
  | '\n' :: cs =>
    let line := if line.head? = some '\r' then line.tail else line
    String.ofList line.reverse :: linesFrom [] cs
  | c :: cs => linesFrom (c :: line) cs

def lines (text : String) : List String := linesFrom [] text.toList

end Console
end AppSupervisor
