import XmlPipeline.Archive.Zip
import XmlPipeline.FileReader
import XmlPipeline.Pipeline.Attribute
import XmlPipeline.Xml.Document

/-!
This module contains the archive that a document describes. An `inline-file` element stands for an entry
with the character data inside of it, a `file` element for an entry with the content of a file.
-/

namespace XmlPipeline
namespace Xml

inductive PlannedEntry where
  | inline (name : String) (content : String)
  | file (source : Path) (name : String)
  deriving DecidableEq, Repr

structure ArchivePlan where
  entries : List PlannedEntry := []
  collecting : Option (String × String) := none
  deriving DecidableEq, Repr

namespace ArchivePlan

def source (base : Option Path) (src : String) : Path :=
  match base with
  | some base => base.join ⟨src⟩
  | none => ⟨src⟩

def add (base : Option Path) (plan : ArchivePlan) : Event → Except Error ArchivePlan
  | .opening start =>
    if start.name.localName == "inline-file" then do
      let name ← Attribute.require (start.attribute? "path") "inline-file" "path"
      return { plan with collecting := some (name, "") }
    else if start.name.localName == "file" then do
      let src ← Attribute.require (start.attribute? "src") "file" "src"
      let name ← Attribute.require (start.attribute? "path") "file" "path"
      return { plan with entries := plan.entries ++ [.file (source base src) name] }
    else
      return plan
  | .text content =>
    return { plan with collecting := plan.collecting.map fun (name, before) =>
      (name, before ++ content) }
  | .closing name =>
    match plan.collecting with
    | some (path, content) =>
      if name.localName == "inline-file" then
        return { entries := plan.entries ++ [.inline path content], collecting := none }
      else
        return plan
    | none => return plan

end ArchivePlan

namespace PlannedEntry

def load (files : FileReader) : PlannedEntry → Except Error Archive.Entry
  | inline name content => .ok { name, content := utf8 content }
  | file source name => do
    return { name, content := ← files.loadBytes source "read zip entry" }

end PlannedEntry

namespace Document

def archiveEntries (files : FileReader) (base : Option Path) (document : Document) :
    Except Error (List Archive.Entry) := do
  let plan ← document.events.foldlM (ArchivePlan.add base) {}
  plan.entries.mapM (PlannedEntry.load files)

end Document
end Xml
end XmlPipeline
