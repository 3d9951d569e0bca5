/-!
Messages that a run logs.
-/
namespace EntityScripts

inductive LogLevel where
  | debug
  | info
  | warn
deriving DecidableEq

def LogLevel.name : LogLevel → String
  | debug => "debug"
  | info => "info"
  | warn => "warn"

structure LogEntry where
  level : LogLevel
  message : String
deriving DecidableEq

end EntityScripts
