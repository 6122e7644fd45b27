import AppSupervisor.CommandLine

namespace AppSupervisor

def faultOf : IO.Error → IoFault
  | .permissionDenied .. => .accessDenied
  | .alreadyExists .. => .alreadyExists
  | .inappropriateType _ 20 _ => .notADirectory
  | .inappropriateType _ 21 _ => .isADirectory
  | .invalidArgument _ 36 _ => .nameTooLong
  | _ => .notFound

def machineText (path : String) : IO (Except IoFault String) := do
  if path.contains '\x00' then return .error .zeroInFileName
  try
    match String.fromUTF8? (← IO.FS.readBinFile path) with
    | some text => return .ok text
    | none => return .error .notText
  catch e => return .error (faultOf e)

def makeMachineDirectory (path : String) : IO (Except IoFault Unit) := do
  try
    IO.FS.createDirAll path
    return .ok ()
  catch e => return .error (faultOf e)

/-- The one file that a line needs: the others are not asked for. -/
def textsFor (line : String) : IO (String → Except IoFault String) := do
  match RequestLine.parse line with
  | .ok (.start file) =>
    let text ← machineText file
    return fun _ => text
  | _ => return fun _ => .error .notFound

partial def serveLines (e : Surroundings ProcessTable) (c : Console ProcessTable)
    (input output : IO.FS.Stream) : IO Unit := do
  let ended ← input.getLine
  unless ended.isEmpty do
    let line := (Console.lines ended).head?.getD ""
    let texts ← textsFor line
    match c.answer { e with text := fun file _ => texts file } line with
    | (.silence, c) => serveLines e c input output
    | (.reply text, c) =>
      output.putStrLn text
      output.flush
      serveLines e c input output
    | (.quit, _) => return

def directoryOf (uid : UInt32) (passwords : String) : Option String :=
  (passwords.splitOn "\n").findSome? fun line =>
    match line.splitOn ":" with
    | [_, _, id, _, _, directory, _] => if id = toString uid then some directory else none
    | _ => none

def machineAccount : IO Account := do
  let status ← IO.FS.readFile "/proc/self/status"
  let ids := (status.splitOn "\n").findSome? fun line =>
    match words line.toList with
    | name :: _ :: effective :: _ =>
      if name = "Uid:".toList then decimal? effective else none
    | _ => none
  let uid := UInt32.ofNat (ids.getD 0)
  try
    let passwords ← IO.FS.readFile "/etc/passwd"
    return ⟨uid, .ok (directoryOf uid passwords)⟩
  catch e => return ⟨uid, .error (.other (toString e))⟩

def openConsole (options : Options) :
    IO (Except Error (Surroundings ProcessTable × Console ProcessTable)) := do
  let text ← match options.configFile with
    | some file => machineText file
    | none => pure (.error .notFound)
  let host := { Host.standard with account := ← machineAccount }
  match options.config fun _ => text with
  | .error fault => return .error fault
  | .ok config =>
    match Console.create config host with
    | .error fault => return .error fault
    | .ok c =>
      let made ← makeMachineDirectory c.supervisor.home
      return (made.mapError .io).map fun _ => (ProcessTable.surroundings config.launch, c)

def runMain (arguments : List String) : IO Ending := do
  match Options.parse arguments with
  | none => return .misused
  | some options =>
    match ← openConsole options with
    | .error fault => return .failed fault
    | .ok (e, c) =>
      serveLines e c (← IO.getStdin) (← IO.getStdout)
      return .served

end AppSupervisor

def main (arguments : List String) : IO UInt32 := do
  let ending ← AppSupervisor.runMain arguments
  match ending with
  | .served => pure ()
  | .failed fault => IO.eprintln (fault.describe AppSupervisor.ProcessTable.wording)
  | .misused => IO.eprintln "usage: [-c FILE] [-v]"
  return ending.exitCode
