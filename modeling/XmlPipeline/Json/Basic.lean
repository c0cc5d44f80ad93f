import XmlPipeline.SortedMap

/-!
This module contains JSON values and the ways to build them. Members of an object are kept in the
order in which they are printed; `Json.object` puts them into ascending order of their names.
-/

namespace XmlPipeline

inductive Json where
  | null
  | bool (value : Bool)
  | int (value : Int)
  | str (value : String)
  | arr (items : List Json)
  | obj (members : List (String × Json))
  deriving BEq, Repr, Inhabited

namespace Json

/--
An object with its members in ascending order of their names. Of two members with one name the later
one stays.
-/
def object (members : List (String × Json)) : Json :=
  .obj <| members.foldl (fun entries member => Assoc.insert member.1 member.2 entries) []

def nat (n : Nat) : Json :=
  .int n

def strings (items : List String) : Json :=
  .arr (items.map .str)

def ofText? : Option String → Json
  | none => .null
  | some value => .str value

def member? (name : String) (value : Option Json) : List (String × Json) :=
  match value with
  | none => []
  | some value => [(name, value)]

def ofMap (map : SortedMap String String) : Json :=
  .obj <| map.toList.map fun (key, value) => (key, .str value)

end Json
end XmlPipeline
