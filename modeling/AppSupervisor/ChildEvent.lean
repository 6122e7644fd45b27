import AppSupervisor.RunState
import AppSupervisor.Signal

namespace AppSupervisor

inductive WaitStatus
  | exited (pid : Pid) (code : Int)
  | signaled (pid : Pid) (signal : Signal) (core : Bool)
  | stopped (pid : Pid) (signal : Signal)
  | tracedEvent (pid : Pid) (signal : Signal) (code : Int)
  | tracedCall (pid : Pid)
  | continued (pid : Pid)
  | stillAlive
  deriving DecidableEq, Repr

/-- A status change as far as a supervisor cares. -/
inductive ChildEvent
  | exited (code : Int)
  | killed (signal : Signal)
  | dumped (signal : Signal)
  | trapped
  | stopped
  | continued
  deriving DecidableEq, Repr

def ChildEvent.isTerminal : ChildEvent → Bool
  | exited _ | killed _ | dumped _ | trapped => true
  | stopped | continued => false

namespace WaitStatus

def pid? : WaitStatus → Option Pid
  | exited pid _ | signaled pid _ _ | stopped pid _ | tracedEvent pid _ _ | tracedCall pid
  | continued pid => some pid
  | stillAlive => none

def change? (status : WaitStatus) : Option (Pid × ChildEvent) :=
  status.pid?.map fun pid => (pid,
    match status with
    | exited _ code => .exited code
    | signaled _ signal true => .dumped signal
    | signaled _ signal false => .killed signal
    | stopped _ _ => .stopped
    | continued _ => .continued
    -- stops of a traced process
    | _ => .trapped)

end WaitStatus
end AppSupervisor
