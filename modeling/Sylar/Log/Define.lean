import Mathlib.Data.String.Basic
import Sylar.Lib.OrderedSet

/-! The definitions of `config_log.cc` and the levels of `log.cc`. -/
namespace Sylar

/-- The enumerators, and the `(LogLevel::Level)100` that `LogIniter` gives to a logger that is
taken out of the configuration. -/
inductive LogLevel where
  | unknow
  | debug
  | info
  | warn
  | error
  | fatal
  | level100
deriving DecidableEq, Repr

def LogLevel.toString : LogLevel → String
  | .debug => "DEBUG"
  | .info => "INFO"
  | .warn => "WARN"
  | .error => "ERROR"
  | .fatal => "FATAL"
  | _ => "UNKNOWN"

def LogLevel.fromString (str : String) : LogLevel :=
  if str = "debug" then .debug
  else if str = "info" then .info
  else if str = "warn" then .warn
  else if str = "error" then .error
  else if str = "fatal" then .fatal
  else if str = "DEBUG" then .debug
  else if str = "INFO" then .info
  else if str = "WARN" then .warn
  else if str = "ERROR" then .error
  else if str = "FATAL" then .fatal
  else .unknow

structure LogAppenderDefine where
  type : Int := 0
  level : LogLevel := .unknow
  formatter : String := ""
  file : String := ""
deriving DecidableEq

structure LogDefine where
  name : String
  level : LogLevel := .unknow
  formatter : String := ""
  appenders : List LogAppenderDefine := []
deriving DecidableEq

/-- `operator<`: the sets are ordered by name alone. -/
def LogDefine.lt (x y : LogDefine) : Bool :=
  x.name < y.name

structure LogDefineSet where
  defs : List LogDefine
  sorted : Lib.Sorted LogDefine.lt defs

def LogDefineSet.Typed (v : LogDefineSet) : Prop :=
  ∀ d ∈ v.defs, ∀ a ∈ d.appenders, a.type = 1 ∨ a.type = 2

instance LogDefineSet.Typed.decidable (v : LogDefineSet) : Decidable v.Typed :=
  inferInstanceAs (Decidable (∀ d ∈ v.defs, ∀ a ∈ d.appenders, a.type = 1 ∨ a.type = 2))

end Sylar
