import Std.Data.ExtTreeMap
import AppSupervisor.Error
import AppSupervisor.Json.Printer
import AppSupervisor.Json.Reader

namespace AppSupervisor

/-- How each content type is started: the program and its arguments, with placeholders. -/
abbrev Templates := Std.ExtTreeMap String (List String)

structure Config where
  capacity : UInt64
  maxRunId : UInt32
  buckets : UInt64
  appDir : String
  home : Option String
  launch : Templates
  deriving DecidableEq

namespace Config

def defaultLaunch : Templates :=
  .ofList [
    ("application/x-executable", ["\x7bpath\x7d/\x7bcontent\x7d"]),
    ("text/x-shellscript", ["/bin/sh", "\x7bpath\x7d/\x7bcontent\x7d"])]

protected def default : Config where
  capacity := 32767
  maxRunId := 32767
  buckets := 32
  appDir := "app-data"
  home := none
  launch := defaultLaunch

instance : Inhabited Config := ⟨Config.default⟩

end Config

def isPowerOfTwo (n : UInt64) : Bool := n.toNat == 1 <<< n.toNat.log2

/-- Capacities whose slots all have a 32-bit link of their own, one link more marking the end. -/
def isCapacity (n : UInt64) : Bool := n != 0 && n < 4294967295

def isAbsolutePath (path : String) : Bool := path.toList.head? == some '/'

def joinPath (directory path : String) : String :=
  if isAbsolutePath path then path
  else if directory.isEmpty || directory.toList.getLast? == some '/' then directory ++ path
  else directory ++ "/" ++ path

/-- What a path says: whether it starts at the root, and the names on the way. Empty names and dots
say nothing, but for a dot in front. -/
def pathParts (path : String) : Bool × List String :=
  let names := path.splitOn "/"
  (isAbsolutePath path,
    (names.take 1).filter (!·.isEmpty) ++
      (names.drop 1).filter fun name => !name.isEmpty && name != ".")

/-- The user that a supervisor runs as. The directory is what the system finds in the password
entries, which may have none for the user. -/
structure Account where
  uid : UInt32
  directory : Except SystemFault (Option String)

def Account.home (a : Account) : Except Error String := do
  match ← a.directory.mapError .system with
  | some directory => return directory
  | none => throw (.noPasswordEntry a.uid)

namespace Config

def agrees (c d : Config) : Bool :=
  c.capacity = d.capacity && c.maxRunId = d.maxRunId && c.buckets = d.buckets &&
    pathParts c.appDir = pathParts d.appDir && c.home.map pathParts = d.home.map pathParts &&
    c.launch = d.launch

def validate (c : Config) : Except InvalidArgument Unit :=
  if !isCapacity c.capacity then .error (.capacity c.capacity)
  else if c.maxRunId.toUInt64 < c.capacity then .error .idRange
  else if !isPowerOfTwo c.buckets then .error .buckets
  else
    match c.home.filter (!isAbsolutePath ·), c.launch.toList.find? (·.2.isEmpty) with
    | some home, _ => .error (.relativeHome home)
    | none, some (contentType, _) => .error (.emptyTemplate contentType)
    | none, none => .ok ()

def appHome (c : Config) (a : Account) : Except Error String :=
  match c.home with
  | some home => .ok home
  | none => a.home.map (joinPath · c.appDir)

inductive Field
  | capacity | maxRunId | buckets | appDir | home | launch
  deriving DecidableEq, Repr

namespace Field

def all : List Field := [capacity, maxRunId, buckets, appDir, home, launch]

def key : Field → String
  | capacity => "capacity"
  | maxRunId => "max_run_id"
  | buckets => "buckets"
  | appDir => "app_dir"
  | home => "home"
  | launch => "launch"

def ofKey? (k : String) : Option Field := all.find? (·.key = k)

/-- The templates of a launch object; a content type that comes twice keeps its last template. -/
def readTemplates : Json.Reader Templates :=
  Json.readObject (fun t contentType => .ok fun cs => do
    let (argv, cs) ← Json.readArray Json.readString cs
    return (t.insert contentType argv, cs)) ∅

def read : Field → Config → Json.Reader Config
  | capacity, c, cs => do
    let (n, cs) ← Json.readBelow UInt64.size cs
    return ({ c with capacity := UInt64.ofNat n }, cs)
  | maxRunId, c, cs => do
    let (n, cs) ← Json.readBelow UInt32.size cs
    return ({ c with maxRunId := UInt32.ofNat n }, cs)
  | buckets, c, cs => do
    let (n, cs) ← Json.readBelow UInt64.size cs
    return ({ c with buckets := UInt64.ofNat n }, cs)
  | appDir, c, cs => do
    let (s, cs) ← Json.readString cs
    return ({ c with appDir := s }, cs)
  | home, c, cs => do
    let (s, cs) ← Json.readOption Json.readString cs
    return ({ c with home := s }, cs)
  | launch, c, cs => do
    let (t, cs) ← readTemplates cs
    return ({ c with launch := t }, cs)

def toJson (c : Config) : Field → Json
  | capacity => .ofInt c.capacity.toNat
  | maxRunId => .ofInt c.maxRunId.toNat
  | buckets => .ofInt c.buckets.toNat
  | appDir => .string c.appDir
  | home => (c.home.map Json.string).getD .null
  | launch => .object (c.launch.toList.map fun (contentType, argv) => (contentType, .ofTexts argv))

end Field

def readMember (s : List Field × Config) (key : String) :
    Except Json.Fault (Json.Reader (List Field × Config)) :=
  match Field.ofKey? key with
  | none => .error .mistyped
  | some field =>
    if field ∈ s.1 then .error .mistyped
    else .ok fun cs => do
      let (c, cs) ← field.read s.2 cs
      return ((field :: s.1, c), cs)

def readElement (field : Field) (s : List Field × Config) :
    Json.Reader (List Field × Config) := fun cs => do
  let (c, cs) ← field.read s.2 cs
  return ((field :: s.1, c), cs)

def read : Json.Reader Config := fun cs => do
  let (s, cs) ← Json.readStructure readMember (Field.all.map readElement) .ok ([], Config.default) cs
  return (s.2, cs)

def ofJson (text : String) : Except Error Config := do
  let c ← (Json.readAll read text).mapError .json
  c.validate.mapError .invalid
  return c

def toJson (c : Config) : Json := .object (Field.all.map fun f => (f.key, f.toJson c))

end Config
end AppSupervisor
