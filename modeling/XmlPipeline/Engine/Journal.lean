import XmlPipeline.Engine.Processor
import XmlPipeline.Output.Body

/-!
This module contains the journal of an engine: what can be seen of its work from outside, in the order in
which it happens.
-/

namespace XmlPipeline

inductive Occurrence (Program : Type) where
  | logged (record : LogRecord)
  | compiled (path : Path)
  | transformed (program : Program) (source : Source) (parameters : ParameterSet)
  | validated (schemas : List String) (source : Source) (label : String)
  | serializing (kind : SerializerKind) (step : SerializerStep) (properties : OutputProperties)
  | shown (step content : String)

abbrev Journal (Program : Type) := List (Occurrence Program)

namespace Journal

variable {Program : Type}

def records (journal : Journal Program) : List LogRecord :=
  journal.filterMap fun
    | .logged record => some record
    | _ => none

def shownSteps (journal : Journal Program) : List (String × String) :=
  journal.filterMap fun
    | .shown step content => some (step, content)
    | _ => none

end Journal
end XmlPipeline
