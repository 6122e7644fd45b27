import AppSupervisor.Error

namespace AppSupervisor

structure ChildSignal where
  active : Bool
  reapers : Nat
  masked : Bool
  /-- The masks that the blocks in force have saved, the newest block first. -/
  saved : List Bool
  deriving DecidableEq, Repr

namespace ChildSignal

def initial : ChildSignal := ⟨false, 0, false, []⟩

inductive Step
  | install
  | uninstall
  | block
  | unblock
  /-- Drops the oldest block instead of the newest. -/
  | unblockOldest
  | blockForever
  deriving DecidableEq, Repr

def install (s : ChildSignal) : Except Error ChildSignal :=
  if s.active then .error .reaperInstalled
  else .ok { s with active := true, reapers := s.reapers + 1 }

def uninstall (s : ChildSignal) : ChildSignal :=
  if s.reapers = 0 then s else { s with active := false, reapers := s.reapers - 1 }

def block (s : ChildSignal) : ChildSignal := { s with masked := true, saved := s.masked :: s.saved }

def unblock (s : ChildSignal) : ChildSignal :=
  match s.saved with
  | [] => s
  | mask :: saved => { s with masked := mask, saved }

def unblockOldest (s : ChildSignal) : ChildSignal :=
  match s.saved.getLast? with
  | none => s
  | some mask => { s with masked := mask, saved := s.saved.dropLast }

def blockForever (s : ChildSignal) : ChildSignal := { s with masked := true }

/-- One step; only an installation can fail, and then nothing changes. -/
def step (s : ChildSignal) : Step → ChildSignal × Except Error Unit
  | .install =>
    match s.install with
    | .ok s => (s, .ok ())
    | .error e => (s, .error e)
  | .uninstall => (s.uninstall, .ok ())
  | .block => (s.block, .ok ())
  | .unblock => (s.unblock, .ok ())
  | .unblockOldest => (s.unblockOldest, .ok ())
  | .blockForever => (s.blockForever, .ok ())

end ChildSignal
end AppSupervisor
