import AppSupervisor.Config

namespace AppSupervisor

inductive Program
  | sleep
  | shell
  | succeed
  | fail
  deriving DecidableEq, Repr

inductive Node
  | directory
  /-- A directory in which nothing can be made, and which knows no name it does not hold, however
  long. -/
  | sealedDirectory
  | file (text : String)
  | program (p : Program)
  deriving DecidableEq, Repr

structure Host where
  nodes : List (List String × Node)
  workingDirectory : List String
  searchPath : List (List String)
  account : Account

namespace Host

def names (path : String) : List String := path.splitOn "/"

def maxName : Nat := 255

def maxPath : Nat := 4095

def node? (h : Host) (place : List String) : Option Node :=
  if place.isEmpty then some .directory else h.nodes.lookup place

def isDirectory (h : Host) (place : List String) : Bool :=
  h.node? place = some .directory || h.node? place = some .sealedDirectory

def origin (place : List String) (path : String) : List String :=
  if path.startsWith "/" then [] else place

def isIdle (name : String) : Bool := name.isEmpty || name = "."

def missing (h : Host) (place : List String) (name : String) : IoFault :=
  if h.node? place ≠ some .sealedDirectory ∧ maxName < name.utf8ByteSize then .nameTooLong
  else .notFound

def follow (h : Host) (place : List String) : List String → Except IoFault (List String)
  | [] => .ok place
  | name :: names =>
    if !h.isDirectory place then .error .notADirectory
    else if isIdle name then h.follow place names
    else if name = ".." then h.follow place.dropLast names
    else if (h.node? (place ++ [name])).isSome then h.follow (place ++ [name]) names
    else .error (h.missing place name)

def resolve (h : Host) (place : List String) (path : String) : Except IoFault (List String) :=
  if path.isEmpty then .error .notFound
  else if maxPath < path.utf8ByteSize then .error .nameTooLong
  else h.follow (origin place path) (names path)

def makeLast (h : Host) (start : List String) (backwards : List String) : Except IoFault Host := do
  match backwards.dropWhile String.isEmpty with
  | [] => throw .alreadyExists
  | name :: before =>
    let place ← h.follow start before.reverse
    if !h.isDirectory place then throw .notADirectory
    if name = "." || name = ".." then throw .alreadyExists
    if (h.node? (place ++ [name])).isSome then throw .alreadyExists
    if h.node? place = some .sealedDirectory then throw .notFound
    if maxName < name.utf8ByteSize then throw .nameTooLong
    return { h with nodes := (place ++ [name], .directory) :: h.nodes }

def above : List String → List (List String)
  | [] => []
  | name :: before =>
    if isIdle name then above before else before.dropWhile isIdle :: above before

/-- Makes the last directory of a path. If something on the way is missing, then the paths above it
are made first, the nearest of which comes first in the list. A directory that is there already is
as good as a new one. -/
def makeAll (h : Host) (start : List String) (backwards : List String) :
    List (List String) → Except IoFault Host
  | [] => settle h (h.makeLast start backwards)
  | parent :: more =>
    match h.makeLast start backwards with
    | .error .notFound => do
      let h ← h.makeAll start parent more
      settle h (h.makeLast start backwards)
    | made => settle h made
where
  settle (h : Host) : Except IoFault Host → Except IoFault Host
    | .ok made => .ok made
    | .error fault =>
      match h.follow start backwards.reverse with
      | .ok place => if h.isDirectory place then .ok h else .error fault
      | .error _ => .error fault

def makeDirectory (h : Host) (path : String) : Except IoFault Host :=
  if path.contains '\x00' then .error .zeroInFileName
  else if maxPath < path.utf8ByteSize then .error .nameTooLong
  else
    let backwards := (names path).reverse
    h.makeAll (origin h.workingDirectory path) backwards (above backwards)

def fileText (h : Host) (path : String) : Except IoFault String := do
  if path.contains '\x00' then throw .zeroInFileName
  match h.node? (← h.resolve h.workingDirectory path) with
  | some (.file text) => return text
  | some (.program _) => throw .notText
  | some .directory | some .sealedDirectory => throw .isADirectory
  | none => throw .notFound

def withFiles (h : Host) (files : List (String × String)) : Host :=
  { h with nodes :=
      files.map (fun (name, text) => (h.workingDirectory ++ [name], .file text)) ++ h.nodes }

def unspelled : String := "\x00"

/-- A host with the usual directories and a few programs. Its working directory is one of those for
temporary files, under a name that nobody knows. -/
def standard : Host where
  nodes :=
    let programs : List (String × Program) :=
      [("sh", .shell), ("sleep", .sleep), ("true", .succeed), ("false", .fail)]
    let directories : List (List String) :=
      [["bin"], ["dev"], ["etc"], ["home"], ["root"], ["tmp"], ["usr"], ["usr", "bin"],
        ["usr", "share"], ["var"], ["tmp", unspelled]]
    directories.map (·, .directory) ++
      [(["proc"], .sealedDirectory), (["dev", "null"], .file ""),
        (["etc", "passwd"], .file "root:x:0:0:root:/root:/bin/sh\n")] ++
      programs.map (fun (name, p) => (["bin", name], .program p)) ++
      programs.map (fun (name, p) => (["usr", "bin", name], .program p))
  workingDirectory := ["tmp", unspelled]
  searchPath := [["usr", "bin"], ["bin"]]
  account := ⟨0, .ok (some "/root")⟩

end Host
end AppSupervisor
