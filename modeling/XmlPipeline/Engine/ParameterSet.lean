import XmlPipeline.Pipeline.Parameter
import XmlPipeline.Xml.Document

/-!
This module contains the parameters that are bound for one run of a stylesheet.
-/

namespace XmlPipeline

inductive ParameterValue where
  | atomic (type : String) (values : List String)
  | document (tree : Xml.Document)
  deriving DecidableEq, Repr, Inhabited

namespace ParameterValue

def ofString (value : String) : ParameterValue :=
  .atomic defaultParameterType [value]

def ofParameter (parameter : Parameter) : ParameterValue :=
  .atomic parameter.type parameter.values

def document? : ParameterValue → Option Xml.Document
  | .document tree => some tree
  | .atomic .. => none

def values : ParameterValue → List String
  | .atomic _ values => values
  | .document _ => []

end ParameterValue

abbrev ParameterSet := SortedMap ParameterName ParameterValue

namespace ParameterSet

def declare (parameters : ParameterSet) (declared : List Parameter) : ParameterSet :=
  parameters.insertMany <| declared.map fun parameter =>
    (parameter.qualifiedName, .ofParameter parameter)

def ofDeclared (declared : List Parameter) : ParameterSet :=
  declare .empty declared

def merge (parameters other : ParameterSet) : ParameterSet :=
  parameters.insertMany other.toList

end ParameterSet
end XmlPipeline
