import XmlPipeline.Engine.Config
import XmlPipeline.Engine.Destination
import XmlPipeline.Engine.Journal
import XmlPipeline.Engine.TemplateCache

/-!
This module contains engines, and the state in which an engine runs a pipeline.
-/

namespace XmlPipeline

inductive Diagnostics where
  | logged
  | kept
  deriving DecidableEq, Repr

structure Engine (Program : Type) where
  config : Config
  processor : Processor Program
  serializers : SerializerFactory := builtinSerializers
  diagnostics : Diagnostics := .logged
  templates : TemplateCache Program := {}
  isClosed : Bool := false

namespace Engine

variable {Program : Type}

def close (engine : Engine Program) : Engine Program :=
  { engine with isClosed := true }

def reopen (engine : Engine Program) : Engine Program :=
  { engine with isClosed := false }

def clearTemplates (engine : Engine Program) : Engine Program :=
  { engine with templates := {} }

end Engine

structure Run (Program σ : Type) where
  out : σ
  templates : TemplateCache Program := {}
  listener : Listener
  journal : Journal Program := []

namespace Run

variable {Program σ : Type}

def note (run : Run Program σ) (occurrence : Occurrence Program) : Run Program σ :=
  { run with journal := run.journal ++ [occurrence] }

def log (run : Run Program σ) (records : List LogRecord) : Run Program σ :=
  { run with journal := run.journal ++ records.map .logged }

def hear (run : Run Program σ) (notice : Notice) : Run Program σ :=
  { run.log [run.listener.record notice] with listener := run.listener.hear notice }

def present (run : Run Program σ) (diagnostics : Diagnostics) (output : String × String) :
    Run Program σ :=
  match diagnostics with
  | .logged => run.log [{ level := .debug, message := stepHeading output.1 ++ output.2 }]
  | .kept => run.note (.shown output.1 output.2)

def redirect {τ : Type} (run : Run Program σ) (out : τ) : Run Program τ where
  out
  templates := run.templates
  listener := run.listener
  journal := run.journal

end Run

/--
An action on the state of a run, which may fail. What has happened up to a failure stays.
-/
abbrev RunM (Program σ : Type) := ExceptT Error (StateM (Run Program σ))

namespace RunM

variable {Program σ : Type}

def note (occurrence : Occurrence Program) : RunM Program σ Unit :=
  modify (·.note occurrence)

def log (records : List LogRecord) : RunM Program σ Unit :=
  modify (·.log records)

def hear (notice : Notice) : RunM Program σ Unit :=
  modify (·.hear notice)

/--
Act into memory, and pass on what was written there to the response if the action does not fail.
-/
def buffered [ByteWriter σ] {α : Type} (action : RunM Program ByteSink α) : RunM Program σ α := do
  let before ← getThe (Run Program σ)
  let (result, after) := (action.run).run (before.redirect {})
  set (after.redirect before.out)
  let value ← MonadExcept.ofExcept result
  let (result, out) := ByteWriter.deliver after.out.received.toList before.out
  modify (·.redirect out)
  MonadExcept.ofExcept <| result.mapError fun error => .io error.message (some "flush response")
  return value

end RunM
end XmlPipeline
