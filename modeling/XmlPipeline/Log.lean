/-!
This module contains the records that are logged while a pipeline runs.
-/

namespace XmlPipeline

inductive LogLevel where
  | error
  | warn
  | info
  | debug
  deriving DecidableEq, Repr

namespace LogLevel

def name : LogLevel → String
  | error => "ERROR"
  | warn => "WARN"
  | info => "INFO"
  | debug => "DEBUG"

end LogLevel

structure LogRecord where
  level : LogLevel
  message : String
  fields : List (String × String) := []
  deriving DecidableEq, Repr

end XmlPipeline
