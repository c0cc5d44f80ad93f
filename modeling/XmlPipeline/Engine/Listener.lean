import XmlPipeline.Log

/-!
This module contains the listener that collects what the processor reports while a request is served.
-/

namespace XmlPipeline

inductive Notice where
  | warning (text : String)
  | error (text : String)
  deriving DecidableEq, Repr

structure Listener where
  inDevelopment : Bool
  warnings : List String := []
  errors : List String := []
  deriving DecidableEq, Repr

namespace Listener

def hear (listener : Listener) : Notice → Listener
  | .warning text => { listener with warnings := listener.warnings ++ [text] }
  | .error text => { listener with errors := listener.errors ++ [text] }

def record (listener : Listener) : Notice → LogRecord
  | .warning text =>
    if listener.inDevelopment then
      { level := .warn, message := text, fields := [("development_mode", "true")] }
    else
      { level := .debug, message := text }
  | .error text => { level := .error, message := text }

def hasErrors (listener : Listener) : Bool :=
  !listener.errors.isEmpty

def summary? (listener : Listener) : Option String :=
  let lines := listener.errors.map ("ERROR: " ++ ·) ++ listener.warnings.map ("WARNING: " ++ ·)
  if lines.isEmpty then none else some ("\n".intercalate lines)

end Listener

def stepHeading (step : String) : String :=
  "----------\nOUTPUT OF STEP: \"" ++ step ++ "\":\n"

end XmlPipeline
