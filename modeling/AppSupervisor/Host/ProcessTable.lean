import AppSupervisor.Console
import AppSupervisor.Host.Process

namespace AppSupervisor

/-- The processes of a host, each the leader of a process group of its own, until their end has been
collected. -/
structure ProcessTable where
  host : Host
  processes : List (Pid × Process)
  nextPid : Int

namespace ProcessTable

def create (host : Host) : ProcessTable := ⟨host, [], 5000000⟩

def spawn (i : Invocation) (t : ProcessTable) : Except IoFault Pid × ProcessTable :=
  match t.host.spawn i with
  | .error e => (.error e, t)
  | .ok (_, process) =>
    let pid : Pid := ⟨Int32.ofInt t.nextPid⟩
    (.ok pid, { t with processes := (pid, process) :: t.processes, nextPid := t.nextPid + 1 })

def modify (t : ProcessTable) (group : Pid) (f : Process → Process) : ProcessTable :=
  { t with processes := t.processes.map fun (pid, p) => (pid, if pid = group then f p else p) }

def signalGroup (group : Pid) (signal : Signal) (t : ProcessTable) :
    Except SystemFault Unit × ProcessTable :=
  match t.processes.lookup group with
  | none => (.error .noSuchProcess, t)
  | some _ => (.ok (), t.modify group (·.deliver signal))

def spawner : Spawner ProcessTable := ⟨spawn, signalGroup⟩

def groupOf (t : ProcessTable) (pid : Pid) : Option Pid := (t.processes.lookup pid).map fun _ => pid

def pending (t : ProcessTable) : Registry.Pending where
  queue pid := (t.processes.lookup pid).map fun p => p.pending.toList.map (Process.status pid)
  own pid statuses held status mem := by
    obtain ⟨p, _, rfl⟩ := Option.map_eq_some_iff.mp held
    obtain ⟨event, _, rfl⟩ := List.mem_map.mp mem
    exact Process.pid?_status pid event

/-- The table when only `left` is still to be collected. -/
def afterCollecting (t : ProcessTable) (left : Registry.Pending) : ProcessTable :=
  let processes := t.processes.map fun (pid, p) =>
    (pid, if left.count pid = 0 then { p with pending := none } else p)
  { t with processes := processes.filter fun (_, p) => p.phase ≠ .ended || p.pending.isSome }

def forget (t : ProcessTable) (pid : Pid) : ProcessTable :=
  { t with processes := t.processes.filter (·.1 ≠ pid) }

def wording : Json.Fault → String
  | .truncated => "the text ends too early"
  | .malformed => "no JSON text"
  | .mistyped => "a value of the wrong kind"

def surroundings (templates : Templates) : Surroundings ProcessTable where
  launcher := spawner.launcher templates
  text file t := t.host.fileText file
  wording _ := wording
  childSignals t := (if t.processes.any (·.2.pending.isSome) then 1 else 0, t)
  groupOf := groupOf
  pending := pending
  collected left t := t.afterCollecting left

end ProcessTable
end AppSupervisor
