namespace AppSupervisor

inductive Signal
  | hup | int | quit | ill | trap | abrt | bus | fpe | kill | usr1 | segv | usr2 | pipe | alrm
  | term | stkflt | chld | cont | stop | tstp | ttin | ttou | urg | xcpu | xfsz | vtalrm | prof
  | winch | io | pwr | sys
  deriving DecidableEq, Repr

namespace Signal

def all : List Signal :=
  [hup, int, quit, ill, trap, abrt, bus, fpe, kill, usr1, segv, usr2, pipe, alrm, term, stkflt,
    chld, cont, stop, tstp, ttin, ttou, urg, xcpu, xfsz, vtalrm, prof, winch, io, pwr, sys]

def name : Signal → String
  | hup => "SIGHUP"
  | int => "SIGINT"
  | quit => "SIGQUIT"
  | ill => "SIGILL"
  | trap => "SIGTRAP"
  | abrt => "SIGABRT"
  | bus => "SIGBUS"
  | fpe => "SIGFPE"
  | kill => "SIGKILL"
  | usr1 => "SIGUSR1"
  | segv => "SIGSEGV"
  | usr2 => "SIGUSR2"
  | pipe => "SIGPIPE"
  | alrm => "SIGALRM"
  | term => "SIGTERM"
  | stkflt => "SIGSTKFLT"
  | chld => "SIGCHLD"
  | cont => "SIGCONT"
  | stop => "SIGSTOP"
  | tstp => "SIGTSTP"
  | ttin => "SIGTTIN"
  | ttou => "SIGTTOU"
  | urg => "SIGURG"
  | xcpu => "SIGXCPU"
  | xfsz => "SIGXFSZ"
  | vtalrm => "SIGVTALRM"
  | prof => "SIGPROF"
  | winch => "SIGWINCH"
  | io => "SIGIO"
  | pwr => "SIGPWR"
  | sys => "SIGSYS"

def ofName? (s : String) : Option Signal := all.find? (·.name = s)

def stops : Signal → Bool
  | stop | tstp | ttin | ttou => true
  | _ => false

def isIgnored : Signal → Bool
  | chld | urg | winch => true
  | _ => false

def dumps : Signal → Bool
  | quit | ill | trap | abrt | bus | fpe | segv | xcpu | xfsz | sys => true
  | _ => false

end Signal
end AppSupervisor
