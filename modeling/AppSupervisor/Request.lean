import AppSupervisor.Error
import AppSupervisor.Text.Decimal
import AppSupervisor.Text.Words

namespace AppSupervisor

inductive RequestLine
  | start (file : String)
  | terminate (id : RunId)
  | stop (id : RunId)
  | resume (id : RunId)
  | state (id : RunId)
  | list
  | collect
  | quit
  deriving DecidableEq, Repr

def RunId.ofWord? (word : List Char) : Option RunId :=
  (decimal? (if word.head? = some '+' then word.tail else word)).bind RunId.ofNat?

namespace RequestLine

def verb : RequestLine → String
  | start _ => "start"
  | terminate _ => "terminate"
  | stop _ => "stop"
  | resume _ => "continue"
  | state _ => "state"
  | list => "list"
  | collect => "collect"
  | quit => "quit"

def runIdArgument (verb : String) : Option (List Char) → Except RequestFault RunId
  | none => .error (.runIdMissing verb)
  | some word =>
    match RunId.ofWord? word with
    | some id => .ok id
    | none => .error (.notARunId (String.ofList word))

/-- The request of a verb and the argument behind it, if any. -/
def ofVerb (verb : String) (argument : Option (List Char)) : Except RequestFault RequestLine :=
  match verb with
  | "start" =>
    match argument with
    | some file => .ok (.start (String.ofList file))
    | none => .error .fileMissing
  | "terminate" => return .terminate (← runIdArgument verb argument)
  | "stop" => return .stop (← runIdArgument verb argument)
  | "continue" => return .resume (← runIdArgument verb argument)
  | "state" => return .state (← runIdArgument verb argument)
  | "list" => .ok .list
  | "collect" => .ok .collect
  | "quit" => .ok .quit
  | _ => .error (.unknown verb)

def parse (line : String) : Except Error RequestLine :=
  Except.mapError .request <|
    match words line.toList with
    | [] => .error .empty
    | [verb] => ofVerb (String.ofList verb) none
    | [verb, argument] => ofVerb (String.ofList verb) (some argument)
    | verb :: _ => .error (.tooManyArguments (String.ofList verb))

end RequestLine
end AppSupervisor
