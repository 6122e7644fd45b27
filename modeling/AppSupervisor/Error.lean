import AppSupervisor.Json.Fault
import AppSupervisor.RunState

namespace AppSupervisor

inductive IoFault
  | notFound
  | argumentsTooLong
  | accessDenied
  | alreadyExists
  | notADirectory
  | isADirectory
  | nameTooLong
  | zeroInFileName
  | zeroInArgument
  | notText
  | other (message : String)
  deriving DecidableEq, Repr

def IoFault.message : IoFault → String
  | notFound => "No such file or directory (os error 2)"
  | argumentsTooLong => "Argument list too long (os error 7)"
  | accessDenied => "Permission denied (os error 13)"
  | alreadyExists => "File exists (os error 17)"
  | notADirectory => "Not a directory (os error 20)"
  | isADirectory => "Is a directory (os error 21)"
  | nameTooLong => "File name too long (os error 36)"
  | zeroInFileName => "file name contained an unexpected NUL byte"
  | zeroInArgument => "nul byte found in provided data"
  | notText => "stream did not contain valid UTF-8"
  | other message => message

inductive SystemFault
  | notPermitted
  | noSuchProcess
  | other (message : String)
  deriving DecidableEq, Repr

def SystemFault.message : SystemFault → String
  | notPermitted => "EPERM: Operation not permitted"
  | noSuchProcess => "ESRCH: No such process"
  | other message => message

inductive InvalidArgument
  | capacity (n : UInt64)
  | idRange
  | buckets
  | relativeHome (path : String)
  | emptyTemplate (contentType : String)
  | runnerCapacity (n : UInt64)
  | runIdRange (maxRunId : UInt32) (capacity : UInt64)
  | bucketCount (n : UInt64)
  | manifestWithoutId
  | manifestNotObject
  | manifestWithoutPublic
  | pluginsNotArray
  | pluginsNotStrings
  | notString (key : String)
  | notInteger (key : String)
  | unknownType (contentType : String)
  | emptyLauncher (contentType : String)
  deriving DecidableEq, Repr

def InvalidArgument.message : InvalidArgument → String
  | capacity n => s!"bad capacity: {n}"
  | idRange => "max_run_id must be at least the capacity"
  | buckets => "buckets must be a power of two"
  | relativeHome path => "home must be absolute: " ++ path
  | emptyTemplate contentType => "empty launch template for " ++ contentType
  | runnerCapacity n => s!"bad runner capacity: {n}"
  | runIdRange top n => s!"max run id {top} is below the capacity {n}"
  | bucketCount n => s!"bucket count must be a power of two: {n}"
  | manifestWithoutId => "manifest requires a string public.id"
  | manifestNotObject => "manifest is not an object"
  | manifestWithoutPublic => "manifest has no public object"
  | pluginsNotArray => "plugins must be an array"
  | pluginsNotStrings => "plugins must be strings"
  | notString key => key ++ " must be a string"
  | notInteger key => key ++ " must be an integer"
  | unknownType contentType => "no launcher for type " ++ contentType
  | emptyLauncher contentType => "empty launcher for " ++ contentType

inductive RequestFault
  | empty
  | tooManyArguments (verb : String)
  | fileMissing
  | runIdMissing (verb : String)
  | notARunId (word : String)
  | unknown (verb : String)
  deriving DecidableEq, Repr

def RequestFault.message : RequestFault → String
  | empty => "empty request"
  | tooManyArguments verb => "too many arguments to " ++ verb
  | fileMissing => "start requires a manifest file"
  | runIdMissing verb => verb ++ " requires a runid"
  | notARunId word => "not a runid: " ++ word
  | unknown verb => "unknown request: " ++ verb

inductive Error
  | io (fault : IoFault)
  | system (fault : SystemFault)
  | json (fault : Json.Fault)
  /-- A table is too large for the address space. -/
  | outOfMemory
  | noPasswordEntry (uid : UInt32)
  | exhausted (limit : Nat)
  | notFound (id : RunId)
  | invalid (argument : InvalidArgument)
  | denied (id : RunId) (state : RunState)
  | launchFailed (app : String) (cause : Error)
  | request (fault : RequestFault)
  | reaperInstalled
  | launchRefused (reason : String)
  | signalRefused
  deriving DecidableEq, Repr

/-- The error followed by its causes. How a fault in a JSON text is worded is up to the reader's
library. -/
def Error.describe (wording : Json.Fault → String) : Error → String
  | io fault => "io error: " ++ fault.message
  | system fault => "nix error: " ++ fault.message
  | json fault => "json error: " ++ wording fault
  | outOfMemory =>
    "out of memory: memory allocation failed because the computed capacity exceeded the collection's maximum"
  | noPasswordEntry uid => s!"an error occured: no password entry for uid={uid}"
  | exhausted limit => s!"runner limit of {limit} reached"
  | notFound id => s!"no runner with id {id.val}"
  | invalid argument => "invalid argument: " ++ argument.message
  | denied id state => s!"runner {id.val} is {state.name}, request denied"
  | launchFailed app cause => "failed to launch " ++ app ++ ": " ++ cause.describe wording
  | request fault => "an error occured: " ++ fault.message
  | reaperInstalled => "an error occured: a SIGCHLD reaper is already installed"
  | launchRefused reason => "an error occured: " ++ reason
  | signalRefused => "an error occured: kill refused"

end AppSupervisor
