import AppSupervisor.Config
import AppSupervisor.Manifest
import AppSupervisor.Text.Substitution

namespace AppSupervisor

structure Invocation where
  program : String
  arguments : List String
  directory : String
  environment : List (String × String)
  deriving DecidableEq, Repr

namespace LaunchDesc

def placeholders (d : LaunchDesc) : List (String × String) := [
  ("\x7bpath\x7d", d.path),
  ("\x7bcontent\x7d", d.content),
  ("\x7bid\x7d", d.tag),
  ("\x7bname\x7d", d.name),
  ("\x7bwidth\x7d", decimalText d.width.toInt),
  ("\x7bheight\x7d", decimalText d.height.toInt),
  ("\x7bhome\x7d", d.home)]

/-- A template's argument for this descriptor. Each placeholder is replaced in what the ones before
it have left, values included. -/
def fillIn (d : LaunchDesc) (argument : String) : String :=
  String.ofList <| d.placeholders.foldl
    (fun text (placeholder, value) => replaceAll placeholder.toList value.toList text)
    argument.toList

def argv (templates : Templates) (d : LaunchDesc) : Except InvalidArgument (List String) :=
  match templates[d.contentType]? with
  | some template => .ok (template.map d.fillIn)
  | none => .error (.unknownType d.contentType)

def environment (d : LaunchDesc) : List (String × String) := [
  ("HOME", d.home),
  ("AFM_APP_ID", d.tag),
  ("AFM_APP_NAME", d.name),
  ("AFM_WIDTH", decimalText d.width.toInt),
  ("AFM_HEIGHT", decimalText d.height.toInt),
  ("AFM_PLUGINS", ",".intercalate d.plugins)]

def invocation (templates : Templates) (d : LaunchDesc) : Except InvalidArgument Invocation := do
  match ← d.argv templates with
  | [] => throw (.emptyLauncher d.contentType)
  | program :: arguments =>
    return { program, arguments, directory := d.path, environment := d.environment }

end LaunchDesc
end AppSupervisor
