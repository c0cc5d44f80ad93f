/-!
This module contains the event model of XML: a document is a sequence of opening tags, texts and
closing tags, in which every name carries the namespace it was resolved to.
-/

namespace XmlPipeline
namespace Xml

structure QName where
  pfx : Option String := none
  localName : String
  uri : Option String := none
  deriving DecidableEq, Repr, Inhabited

namespace QName

def lexical (name : QName) : String :=
  match name.pfx with
  | some pfx => pfx ++ ":" ++ name.localName
  | none => name.localName

def isIn (name : QName) (uri : String) : Bool :=
  name.uri == some uri

/--
Whether this is the expanded name made of `uri` and `localName`. The way it is written is left aside.
-/
def is (name : QName) (uri localName : String) : Bool :=
  name.isIn uri && name.localName == localName

end QName

structure Attribute where
  name : QName
  value : String
  deriving DecidableEq, Repr, Inhabited

/--
The declaration of a namespace, of the default namespace if there is no prefix.
-/
structure NamespaceBinding where
  pfx : Option String
  uri : String
  deriving DecidableEq, Repr, Inhabited

structure ElementStart where
  name : QName
  attributes : List Attribute := []
  namespaces : List NamespaceBinding := []
  deriving DecidableEq, Repr, Inhabited

namespace ElementStart

def attribute? (start : ElementStart) (localName : String) : Option String :=
  (start.attributes.find? fun attr =>
    attr.name.uri.isNone && attr.name.localName == localName).map (·.value)

end ElementStart

inductive Event where
  | opening (start : ElementStart)
  | text (content : String)
  | closing (name : QName)
  deriving DecidableEq, Repr, Inhabited

end Xml
end XmlPipeline
