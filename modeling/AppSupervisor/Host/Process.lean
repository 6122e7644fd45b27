import AppSupervisor.ChildEvent
import AppSupervisor.Host.Files
import AppSupervisor.Template
import AppSupervisor.Text.Words

namespace AppSupervisor

inductive Process.Phase
  | running
  | stopped
  | ended
  deriving DecidableEq, Repr

structure Process where
  phase : Process.Phase
  pending : Option ChildEvent
  held : Option Signal
  deriving DecidableEq, Repr

namespace Process

def status (pid : Pid) : ChildEvent → WaitStatus
  | .exited code => .exited pid code
  | .killed signal => .signaled pid signal false
  | .dumped signal => .signaled pid signal true
  | .trapped => .tracedCall pid
  | .stopped => .stopped pid .stop
  | .continued => .continued pid

theorem pid?_status (pid : Pid) (event : ChildEvent) : (status pid event).pid? = some pid := by
  cases event <;> rfl

def running : Process := ⟨.running, none, none⟩

def ended (event : ChildEvent) : Process := ⟨.ended, some event, none⟩

def sleeping : List String → Process
  | [seconds] =>
    match decimal? seconds.toList with
    | some 0 => ended (.exited 0)
    | some _ => running
    | none => ended (.exited 1)
  | _ => ended (.exited 1)

def ofCommand (command : String) : Process :=
  match (words command.toList).map String.ofList with
  | "sleep" :: arguments | "exec" :: "sleep" :: arguments => sleeping arguments
  | ["exit", code] => ended (.exited ((decimal? code.toList).getD 2 % 256 : Nat))
  | _ => ended (.exited 0)

def start (program : Program) (arguments : List String) : Process :=
  match program, arguments with
  | .succeed, _ => ended (.exited 0)
  | .fail, _ => ended (.exited 1)
  | .sleep, arguments => sleeping arguments
  | .shell, "-c" :: command :: _ => ofCommand command
  | .shell, _ => ended (.exited 0)

def killedBy (signal : Signal) : Process := ended (if signal.dumps then .dumped signal else .killed signal)

def deliver (p : Process) (signal : Signal) : Process :=
  match p.phase with
  | .ended => p
  | .running =>
    if signal = .cont ∨ signal.isIgnored then p
    else if signal.stops then { p with phase := .stopped, pending := some .stopped }
    else killedBy signal
  | .stopped =>
    if signal = .kill then killedBy .kill
    else if signal = .cont then
      match p.held with
      | some deadly => killedBy deadly
      | none => { p with phase := .running, pending := some .continued }
    else if signal.stops ∨ signal.isIgnored then p
    else { p with held := p.held.or (some signal) }

end Process

namespace Host

def maxArgument : Nat := 131071

def handedOver (i : Invocation) : List String :=
  i.program :: i.arguments ++ i.environment.map fun (name, value) => name ++ "=" ++ value

def maxHandedOver : Nat := 2097152

def spaceFor (texts : List String) : Nat := texts.foldl (fun n s => n + s.utf8ByteSize + 9) 0

def fits (texts : List String) : Bool :=
  texts.all (·.utf8ByteSize ≤ maxArgument) && spaceFor texts ≤ maxHandedOver

def programAt (h : Host) (place : List String) : Except IoFault Program :=
  match h.node? place with
  | some (.program p) => .ok p
  | none => .error .notFound
  | _ => .error .accessDenied

/-- Looks for a program in the directories of the search path. A file that is no program is
remembered, since another directory may have one. -/
def searchProgram (h : Host) (name : String) : List (List String) → IoFault → Except IoFault Program
  | [], fault => .error fault
  | directory :: rest, fault =>
    match (h.resolve directory name).bind h.programAt with
    | .ok p => .ok p
    | .error .accessDenied => h.searchProgram name rest .accessDenied
    | .error _ => h.searchProgram name rest fault

def findProgram (h : Host) (place : List String) (program : String) : Except IoFault Program :=
  if program.isEmpty then .error .notFound
  else if program.contains '/' then (h.resolve place program).bind h.programAt
  else if maxName < program.utf8ByteSize then .error .nameTooLong
  else h.searchProgram program h.searchPath .notFound

def spawn (h : Host) (i : Invocation) : Except IoFault (List String × Process) := do
  if (i.directory :: handedOver i).any (·.contains '\x00') then throw .zeroInArgument
  let place ← h.resolve h.workingDirectory i.directory
  unless h.isDirectory place do throw .notADirectory
  let program ← h.findProgram place i.program
  unless fits (handedOver i) do throw .argumentsTooLong
  return (place, .start program i.arguments)

end Host
end AppSupervisor
