/-!
How a child process ends.
-/

namespace SketchPreview
namespace Runner

inductive Status where
  | code (n : Nat)
  | signal (n : Nat)
deriving DecidableEq

namespace Status

/-- The names of the signals from the first on. -/
def signalNames : List String :=
  ["SIGHUP", "SIGINT", "SIGQUIT", "SIGILL", "SIGTRAP", "SIGABRT", "SIGBUS", "SIGFPE", "SIGKILL",
    "SIGUSR1", "SIGSEGV", "SIGUSR2", "SIGPIPE", "SIGALRM", "SIGTERM", "SIGSTKFLT", "SIGCHLD",
    "SIGCONT", "SIGSTOP", "SIGTSTP", "SIGTTIN", "SIGTTOU", "SIGURG", "SIGXCPU", "SIGXFSZ",
    "SIGVTALRM", "SIGPROF", "SIGWINCH", "SIGIO", "SIGPWR", "SIGSYS"]

def message : Status → String
  | .code n => s!"exit status: {n}"
  | .signal n =>
    match n with
    | 0 => s!"signal: {n}"
    | k + 1 =>
      match signalNames[k]? with
      | some name => s!"signal: {n} ({name})"
      | none => s!"signal: {n}"

def succeeded (s : Status) : Bool := s == .code 0

end Status
end Runner
end SketchPreview
