/-
The log output of a process, which is installed once.
-/
import ControlLoop.Config

namespace ControlLoop

/-- What is known of the log output: its format, once it is installed. -/
structure Logging where
  installed : Option LogFormat

namespace Logging

/-- Nothing is installed yet. -/
def fresh : Logging := ⟨none⟩

/-- Why a second installation is refused. -/
def alreadyInstalled : Error :=
  .config ("failed to install tracing subscriber: "
    ++ "a global default trace dispatcher has already been set")

/-- Install the log output, unless that was done before. -/
def install (l : Logging) (format : LogFormat) : Except Error Logging :=
  match l.installed with
  | none => .ok ⟨some format⟩
  | some _ => .error alreadyInstalled

end Logging

end ControlLoop
