import XmlPipeline.Xml.Document

/-!
This module contains the input of a step, which is either markup or the document that the step before
has made.
-/

namespace XmlPipeline

inductive Source where
  | text (content : String)
  | document (tree : Xml.Document)
  deriving DecidableEq, Repr, Inhabited

namespace Source

def isDocument : Source → Bool
  | text _ => false
  | document _ => true

def toText : Source → String
  | text content => content
  | document tree => tree.toXml true

def toDocument : Source → Except Error Xml.Document
  | text content => Xml.Document.read content
  | document tree => .ok tree

end Source
end XmlPipeline
