import XmlPipeline.Json.Basic

/-!
This module contains the parameters that a definition declares for a stylesheet, and the expanded
names under which parameters are bound.
-/

namespace XmlPipeline

structure ParameterName where
  uri : Option String := none
  localName : String
  deriving DecidableEq, Repr, Inhabited

namespace ParameterName

/--
The name in a namespace. The empty namespace is none at all.
-/
def ofUri (uri : Option String) (localName : String) : ParameterName :=
  { uri := uri.filter (!·.isEmpty), localName }

/--
Names without a namespace come first, then the order is that of the namespaces and of the local names.
-/
def order : ParameterName → ParameterName → Ordering :=
  compareLex (compareOn uri) (compareOn localName)

instance : Ord ParameterName := ⟨order⟩

instance : Std.TransOrd ParameterName :=
  inferInstanceAs (Std.TransCmp (compareLex (compareOn uri) (compareOn localName)))

instance : Std.LawfulEqOrd ParameterName where
  eq_of_compare {a b} h := by
    have h : compareLex (compareOn uri) (compareOn localName) a b = .eq := h
    simp only [compareLex, Ordering.then_eq_eq, compareOn, Std.LawfulEqOrd.compare_eq_iff_eq] at h
    cases a
    cases b
    simp_all

def display (name : ParameterName) : String :=
  match name.uri with
  | some uri => "\x7b" ++ uri ++ "\x7d" ++ name.localName
  | none => name.localName

def toJson (name : ParameterName) : Json :=
  Json.object <| Json.member? "namespace" (name.uri.map .str) ++ [("local", .str name.localName)]

end ParameterName

def defaultParameterType : String := "xs:string"

structure Parameter where
  name : String
  uri : Option String := none
  type : String := defaultParameterType
  values : List String := []
  deriving DecidableEq, Repr, Inhabited

namespace Parameter

def qualifiedName (parameter : Parameter) : ParameterName :=
  .ofUri parameter.uri parameter.name

def addValue (parameter : Parameter) (value : String) : Parameter :=
  { parameter with values := parameter.values ++ [value] }

def toJson (parameter : Parameter) : Json :=
  Json.object <| [("name", .str parameter.name), ("type", .str parameter.type),
    ("values", .strings parameter.values)] ++ Json.member? "uri" (parameter.uri.map .str)

end Parameter
end XmlPipeline
