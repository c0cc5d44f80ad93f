import XmlPipeline.Xml.Event
import XmlPipeline.Xml.Escape
import XmlPipeline.Xml.Tag

/-!
This module contains the resolution of names: which namespace declarations the attributes of a tag
make, which of them are allowed, and which namespace a prefix stands for under the declarations in
force.
-/

namespace XmlPipeline
namespace Xml

def xmlNamespace : String := "http://www.w3.org/XML/1998/namespace"

def xmlnsNamespace : String := "http://www.w3.org/2000/xmlns/"

def splitName (raw : List Char) : Option String × String :=
  match Text.cutAt? (· == ':') raw with
  | some (pfx, _, localName) => (some (String.ofList pfx), String.ofList localName)
  | none => (none, String.ofList raw)

def declaredPrefix? (key : List Char) : Option (Option String) :=
  match Text.afterMarker? ['x', 'm', 'l', 'n', 's'] key with
  | some [] => some none
  | some (':' :: pfx) => some (some (String.ofList pfx))
  | _ => none

/--
The declarations in force at some point of a document, the innermost one first. An empty prefix stands
for the default namespace. Values are taken as they are written, references included.
-/
abbrev Scope := List (String × String)

namespace Scope

def initial : Scope :=
  [("xml", xmlNamespace), ("xmlns", xmlnsNamespace)]

/--
Add the declaration that an attribute makes, if it makes one. The two built-in prefixes cannot be
declared anew, and no other prefix can be declared for their namespaces.
-/
def declare (scope : Scope) (attr : RawAttribute) : Except SyntaxError Scope :=
  let uri := String.ofList attr.value
  match declaredPrefix? attr.key with
  | none => .ok scope
  | some none => .ok (("", uri) :: scope)
  | some (some pfx) =>
    if pfx = "xml" then
      if uri = xmlNamespace then .ok scope else .error (.reservedBinding pfx uri)
    else if pfx = "xmlns" ∨ uri = xmlNamespace ∨ uri = xmlnsNamespace then
      .error (.reservedBinding pfx uri)
    else
      .ok ((pfx, uri) :: scope)

def declareAll (scope : Scope) (attrs : List RawAttribute) : Except SyntaxError Scope :=
  attrs.foldlM declare scope

def uri? (scope : Scope) (pfx : String) : Option String :=
  (List.find? (·.1 == pfx) scope).map (·.2)

/--
The namespace of a prefix. It has to be declared, and not for the empty namespace.
-/
def resolvePrefix (scope : Scope) (pfx : String) : Except SyntaxError String :=
  match scope.uri? pfx with
  | some uri => if pfx.isEmpty || uri.isEmpty then .error (.unknownPrefix pfx) else .ok uri
  | none => .error (.unknownPrefix pfx)

/--
The name of an element. Without a prefix it is in the default namespace.
-/
def elementName (scope : Scope) (raw : List Char) : Except SyntaxError QName :=
  match splitName raw with
  | (some pfx, localName) =>
    (scope.resolvePrefix pfx).map fun uri => { pfx := some pfx, localName, uri := some uri }
  | (none, localName) => .ok { localName, uri := (scope.uri? "").filter (!·.isEmpty) }

/--
The name of an attribute. Without a prefix it is in no namespace.
-/
def attributeName (scope : Scope) (raw : List Char) : Except SyntaxError QName :=
  match splitName raw with
  | (some pfx, localName) =>
    (scope.resolvePrefix pfx).map fun uri => { pfx := some pfx, localName, uri := some uri }
  | (none, localName) => .ok { localName }

def addAttribute (scope : Scope) (start : ElementStart) (attr : RawAttribute) :
    Except SyntaxError ElementStart := do
  let value ← (unescape attr.value).mapError .reference
  let value := String.ofList value
  match declaredPrefix? attr.key with
  | some pfx => return { start with namespaces := start.namespaces ++ [⟨pfx, value⟩] }
  | none =>
    let name ← scope.attributeName attr.key
    return { start with attributes := start.attributes ++ [⟨name, value⟩] }

def openElement (scope : Scope) (content : List Char) : Except SyntaxError (ElementStart × Scope) := do
  let inner ← scope.declareAll (Tag.read false content).attributes
  let tag := Tag.read true content
  let name ← inner.elementName tag.name
  let start ← tag.attributes.foldlM inner.addAttribute { name }
  match tag.failure with
  | some failure => throw (.attr failure)
  | none => return (start, inner)

end Scope
end Xml
end XmlPipeline
