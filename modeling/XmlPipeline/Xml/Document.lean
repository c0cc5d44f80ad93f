import XmlPipeline.Xml.Reader
import XmlPipeline.Xml.Writer

/-!
This module contains documents, which are held as their events.
-/

namespace XmlPipeline
namespace Xml

structure Document where
  events : List Event := []
  deriving DecidableEq, Repr, Inhabited

namespace Document

def read (source : String) : Except Error Document :=
  match (Reader.ofText source).events with
  | (events, none) => .ok { events }
  | (_, some failure) => .error failure.toError

def root? (document : Document) : Option ElementStart :=
  document.events.findSome? fun
    | .opening start => some start
    | _ => none

def text (document : Document) : String :=
  String.join <| document.events.filterMap fun
    | .text content => some content
    | _ => none

/--
The document as markup, with a line for each tag that follows another tag if `indented` is set.
-/
def toXml (document : Document) (indented : Bool) : String :=
  String.ofList (({ indented } : Layout).render document.events)

end Document
end Xml
end XmlPipeline
