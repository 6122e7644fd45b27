import AppSupervisor.Error
import AppSupervisor.Json.Printer
import AppSupervisor.Json.Reader
import AppSupervisor.RunState

namespace AppSupervisor

structure Record where
  runId : RunId
  state : Reported
  id : String
  deriving DecidableEq, Repr

namespace Record

def members (r : Record) : List (String × Json) :=
  [("runid", .ofInt r.runId.toNat), ("state", .string r.state.name), ("id", .string r.id)]

def toJson (r : Record) : Json := .object r.members

structure Draft where
  runId : Option RunId := none
  state : Option Reported := none
  id : Option String := none

def readRunId (d : Draft) : Json.Reader Draft := fun cs => do
  let (n, cs) ← Json.readBelow UInt32.size cs
  return ({ d with runId := some ⟨UInt32.ofNat n⟩ }, cs)

def readState (d : Draft) : Json.Reader Draft := fun cs => do
  let (s, cs) ← Json.readChoice Reported.ofName? cs
  return ({ d with state := some s }, cs)

def readId (d : Draft) : Json.Reader Draft := fun cs => do
  let (s, cs) ← Json.readString cs
  return ({ d with id := some s }, cs)

/-- How the value of a member is read: no field may come twice, and other members do not matter. -/
def readMember (d : Draft) (key : String) : Except Json.Fault (Json.Reader Draft) :=
  match key with
  | "runid" => if d.runId.isSome then .error .mistyped else .ok (readRunId d)
  | "state" => if d.state.isSome then .error .mistyped else .ok (readState d)
  | "id" => if d.id.isSome then .error .mistyped else .ok (readId d)
  | _ => .ok fun cs => do
    let (_, cs) ← Json.skipValue cs
    return (d, cs)

def read : Json.Reader Record := fun cs => do
  let (d, cs) ← Json.readStructure readMember [readRunId, readState, readId]
    (fun _ => .error .mistyped) {} cs
  let ⟨some runId, some state, some id⟩ := d | .error .mistyped
  return (⟨runId, state, id⟩, cs)

def ofJson (text : String) : Except Error Record := (Json.readAll read text).mapError .json

end Record
end AppSupervisor
