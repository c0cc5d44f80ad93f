import XmlPipeline.Xml.Event

/-!
This module contains the content of elements as trees, beside the event sequences that documents are
held as, and the namespace declarations that are in force inside of nested elements.
-/

namespace XmlPipeline
namespace Xml

inductive Content where
  | empty
  | text (characters : String) (rest : Content)
  | element (start : ElementStart) (inner rest : Content)
  deriving DecidableEq

namespace Content

def events : Content → List Event
  | empty => []
  | text characters rest => .text characters :: rest.events
  | element start inner rest =>
    .opening start :: inner.events ++ .closing start.name :: rest.events

/--
The character data that does not stand in any element of the content.
-/
def characters : Content → String
  | empty => ""
  | text characters rest => characters ++ rest.characters
  | element _ _ rest => rest.characters

/--
The elements of a content that pass a test, each with what is inside of it. Elements inside of other
ones are left aside.
-/
def children (test : ElementStart → Bool) : Content → List (ElementStart × Content)
  | empty => []
  | text _ rest => rest.children test
  | element start inner rest =>
    if test start then (start, inner) :: rest.children test else rest.children test

def elements : Content → List (ElementStart × Content)
  | empty => []
  | text _ rest => rest.elements
  | element start inner rest => (start, inner) :: inner.elements ++ rest.elements

def allCharacters : Content → String
  | empty => ""
  | text characters rest => characters ++ rest.allCharacters
  | element _ inner rest => inner.allCharacters ++ rest.allCharacters

end Content

namespace NamespaceBinding

/--
The declaration of a prefix that counts among nested ones, which are listed from the innermost one to the
outermost one.
-/
def innermost? (pfx : Option String) (bindings : List NamespaceBinding) : Option NamespaceBinding :=
  bindings.find? (·.pfx == pfx)

/--
The declarations that are in force under nested ones, which are listed from the outermost one to the
innermost one. Each prefix has its innermost declaration at the place of its outermost one, and a prefix
that was taken back has none.
-/
def inForce (bindings : List NamespaceBinding) : List NamespaceBinding :=
  let declared := (bindings.map (·.pfx)).eraseDups.filterMap (innermost? · bindings.reverse)
  declared.filter fun binding => !binding.uri.isEmpty || binding.pfx.isNone

end NamespaceBinding
end Xml
end XmlPipeline
