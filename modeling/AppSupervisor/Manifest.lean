import AppSupervisor.Error
import AppSupervisor.Json.Reader
import AppSupervisor.Json.Value

namespace AppSupervisor

/-- The descriptor of an installed application, with the identifier under which its runners are
reported. -/
structure Manifest where
  value : Json
  appId : String
  deriving Inhabited

namespace Manifest

def public? (v : Json) : Option (List (String × Json)) := (v.get? "public").bind Json.members?

/-- A value is a manifest when it carries a string public.id. -/
def ofValue (v : Json) : Except Error Manifest :=
  match (public? v).bind fun ms => (ms.lookup "id").bind Json.string? with
  | some appId => .ok ⟨v, appId⟩
  | none => .error (.invalid .manifestWithoutId)

def ofJson (text : String) : Except Error Manifest := do
  ofValue (← (Json.parse text).mapError .json)

end Manifest

structure LaunchDesc where
  path : String
  tag : String
  content : String
  contentType : String
  name : String
  width : Int32
  height : Int32
  home : String
  plugins : List String
  deriving DecidableEq, Repr

namespace LaunchDesc

def requireString (ms : List (String × Json)) (key : String) : Except InvalidArgument String :=
  match (ms.lookup key).bind Json.string? with
  | some s => .ok s
  | none => .error (.notString key)

def requireInt (ms : List (String × Json)) (key : String) : Except InvalidArgument Int32 :=
  match (ms.lookup key).bind Json.int? with
  | some n =>
    if Int32.minValue.toInt ≤ n ∧ n ≤ Int32.maxValue.toInt then .ok (Int32.ofInt n)
    else .error (.notInteger key)
  | none => .error (.notInteger key)

def requirePlugins (ms : List (String × Json)) : Except InvalidArgument (List String) :=
  match ms.lookup "plugins" with
  | none => .ok []
  | some (.array vs) =>
    match vs.mapM Json.string? with
    | some plugins => .ok plugins
    | none => .error .pluginsNotStrings
  | some _ => .error .pluginsNotArray

def ofManifest (m : Manifest) (home : String) : Except InvalidArgument LaunchDesc := do
  let some app := m.value.members? | throw .manifestNotObject
  let some shown := Manifest.public? m.value | throw .manifestWithoutPublic
  let plugins ← requirePlugins app
  return {
    path := ← requireString app "path"
    tag := ← requireString app "id"
    content := ← requireString app "content"
    contentType := ← requireString app "type"
    name := ← requireString shown "name"
    width := ← requireInt shown "width"
    height := ← requireInt shown "height"
    home
    plugins }

end LaunchDesc
end AppSupervisor
