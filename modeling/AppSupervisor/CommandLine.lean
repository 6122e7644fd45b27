import AppSupervisor.Host.ProcessTable
import AppSupervisor.Options

namespace AppSupervisor

def Options.config (o : Options) (read : String → Except IoFault String) : Except Error Config :=
  match o.configFile with
  | none => .ok .default
  | some file => ((read file).mapError .io).bind Config.ofJson

inductive Ending
  | served
  | failed (e : Error)
  | misused
  deriving DecidableEq, Repr

def Ending.exitCode : Ending → UInt32
  | served => 0
  | failed _ => 1
  | misused => 2

def Console.create (c : Config) (host : Host) : Except Error (Console ProcessTable) := do
  let (s, host) ← Supervisor.create c host.account host.makeDirectory
  return ⟨s, .create host⟩

/-- A run of the program on a host: how it ends, and the lines it prints. -/
def runProgram (host : Host) (arguments : List String) (input : String) : Ending × List String :=
  match Options.parse arguments with
  | none => (.misused, [])
  | some options =>
    match options.config host.fileText with
    | .error e => (.failed e, [])
    | .ok config =>
      match Console.create config host with
      | .error e => (.failed e, [])
      | .ok c =>
        let e := ProcessTable.surroundings config.launch
        (.served, (c.answerAll e (Console.lines input)).1)

end AppSupervisor
