import XmlPipeline.Engine.Listener
import XmlPipeline.Engine.ParameterSet
import XmlPipeline.Engine.Report
import XmlPipeline.Engine.Source
import XmlPipeline.Output.Properties
import XmlPipeline.Path

/-!
This module contains the interface of the processor that compiles and runs stylesheets and validates
documents. A processor is a value: what it does in the course of a transformation is a tree of requests,
and whoever runs the transformation answers them.
-/

namespace XmlPipeline

/--
The course of a transformation. Each event of the result is emitted, and what happens next depends on
whether it could be written.
-/
inductive Transformation where
  | finish
  | fail (error : Error)
  | report (notice : Notice) (next : Transformation)
  | emit (event : Xml.Event) (next : Except Error Unit → Transformation)
  deriving Inhabited

namespace Transformation

def emitAll (events : List Xml.Event) (next : Transformation) : Transformation :=
  match events with
  | [] => next
  | event :: events =>
    .emit event fun
      | .ok () => emitAll events next
      | .error error => .fail error

end Transformation

structure Compilation (Program : Type) where
  notices : List Notice := []
  result : Except Error Program

/--
What comes of the validation of a document: the document, which the schemas may have added to, and a
report if anything was found.
-/
structure Validation where
  output : String
  report : Option ValidationReport := none
  deriving DecidableEq, Repr

structure Processor (Program : Type) where
  compile : Path → Compilation Program
  outputProperties : Program → OutputProperties
  transform : Program → Source → ParameterSet → Transformation
  validate : (schemas : List String) → Source → (label : String) → Except Error Validation

end XmlPipeline
