namespace AppSupervisor

structure RunId where
  val : UInt32
  deriving DecidableEq, Repr, Inhabited

structure Pid where
  val : Int32
  deriving DecidableEq, Repr, Inhabited

/-- The processes of a launched application: the leader's pid is the group's, and the application
is the leader itself unless something sits in between. -/
structure Children where
  leader : Pid
  app : Pid
  deriving DecidableEq, Repr

/-- Starting → Running ⇄ Stopped → Terminating → Terminated. -/
inductive RunState
  | starting
  | running
  | stopped
  | terminating
  | terminated
  deriving DecidableEq, Repr, Inhabited

inductive Reported
  | running
  | stopped
  | terminated
  deriving DecidableEq, Repr, Inhabited

namespace RunState

def all : List RunState := [starting, running, stopped, terminating, terminated]

def code : RunState → Nat
  | starting => 0
  | running => 1
  | stopped => 2
  | terminating => 3
  | terminated => 4

def name : RunState → String
  | starting => "Starting"
  | running => "Running"
  | stopped => "Stopped"
  | terminating => "Terminating"
  | terminated => "Terminated"

def ofName? (s : String) : Option RunState := all.find? (·.name = s)

def isGone : RunState → Bool
  | terminating | terminated => true
  | _ => false

/-- A starting runner is reported as running. -/
def reported : RunState → Reported
  | starting | running => .running
  | stopped => .stopped
  | terminating | terminated => .terminated

end RunState

namespace Reported

def name : Reported → String
  | running => "running"
  | stopped => "stopped"
  | terminated => "terminated"

def ofName? (s : String) : Option Reported :=
  [running, stopped, terminated].find? (·.name = s)

theorem ofName?_name (r : Reported) : ofName? r.name = some r := by
  cases r <;> decide

end Reported

namespace RunId

def toNat (r : RunId) : Nat := r.val.toNat

def ofNat? (n : Nat) : Option RunId := if n < UInt32.size then some ⟨UInt32.ofNat n⟩ else none

end RunId

def Pid.toInt (p : Pid) : Int := p.val.toInt

end AppSupervisor
