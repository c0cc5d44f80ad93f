import XmlPipeline.Pipeline.Basic
import XmlPipeline.Proofs.Xml.Indentation
import XmlPipeline.Proofs.Xml.ReadContent

/-!
This module contains the namespaces that names are resolved to by the declarations around them. The reader
resolves names by declarations as they are written and reports what these stand for, so the two agree where
declarations are written without references.
-/

namespace XmlPipeline
namespace Xml

namespace NamespaceBinding

/--
The namespace that a prefix stands for under nested declarations, which are listed from the innermost one to
the outermost one. Two prefixes are built in, and a declaration of the empty namespace declares none.
-/
def namespace? (bindings : List NamespaceBinding) (pfx : Option String) : Option String :=
  if pfx = some "xml" then some xmlNamespace
  else if pfx = some "xmlns" then some xmlnsNamespace
  else ((innermost? pfx bindings).map (·.uri)).filter (!·.isEmpty)

/--
The declaration is reported for this one, which has the value of its attribute as it is written. An empty
prefix is written for the default namespace.
-/
structure IsWritten (written reported : NamespaceBinding) : Prop where
  pfx : written.pfx = reported.pfx.filter (!·.isEmpty)
  uri : unescape written.uri.toList = .ok reported.uri.toList

end NamespaceBinding

open NamespaceBinding (namespace? innermost? IsWritten)

namespace ElementStart

/--
The names of the element and of its attributes have the namespaces that these declarations give them. Each
prefix in them is declared, and attributes without a prefix are in no namespace.
-/
structure ResolvedBy (bindings : List NamespaceBinding) (start : ElementStart) : Prop where
  name : start.name.uri = namespace? bindings start.name.pfx
  attributes : ∀ attr ∈ start.attributes,
    attr.name.uri = attr.name.pfx.bind fun pfx => namespace? bindings (some pfx)
  declared : ∀ name ∈ start.name :: start.attributes.map (·.name),
    name.pfx.isSome = true → name.uri.isSome = true

end ElementStart

namespace Content

def Resolved (outer : List NamespaceBinding) : Content → Prop
  | empty => True
  | text _ rest => rest.Resolved outer
  | element start inner rest =>
    start.ResolvedBy (start.namespaces.reverse ++ outer)
      ∧ inner.Resolved (start.namespaces.reverse ++ outer) ∧ rest.Resolved outer

def ResolvedAsWritten (outer : List NamespaceBinding) : Content → Prop
  | empty => True
  | text _ rest => rest.ResolvedAsWritten outer
  | element start inner rest =>
    (∃ written, List.Forall₂ IsWritten written start.namespaces
        ∧ start.ResolvedBy (written.reverse ++ outer)
        ∧ inner.ResolvedAsWritten (written.reverse ++ outer))
      ∧ rest.ResolvedAsWritten outer

end Content

namespace RawAttribute

def binding (attr : RawAttribute) : NamespaceBinding where
  pfx := (declaredPrefix? attr.key).join.filter (!·.isEmpty)
  uri := String.ofList attr.value

end RawAttribute

namespace Tag

def declarations (content : List Char) : List RawAttribute :=
  (read true content).attributes.filter (·.isDeclaration)

def Literal (content : List Char) : Prop :=
  ∀ attr ∈ declarations content, '&' ∉ attr.value ∧ declaredPrefix? attr.key ≠ some (some "")

instance (content : List Char) : Decidable (Literal content) :=
  inferInstanceAs (Decidable (∀ attr ∈ declarations content,
    '&' ∉ attr.value ∧ declaredPrefix? attr.key ≠ some (some "")))

end Tag

/-! ### Declarations as they are written -/

section Declarations

variable {attr : RawAttribute} {binding : NamespaceBinding} {attrs : List RawAttribute}
  {bindings : List NamespaceBinding}

theorem isWritten_binding (hpfx : declaredPrefix? attr.key = some binding.pfx)
    (huri : unescape attr.value = .ok binding.uri.toList) : IsWritten attr.binding binding where
  pfx := by simp [RawAttribute.binding, hpfx]
  uri := by simpa [RawAttribute.binding] using huri

theorem binding_of_literal (hamp : '&' ∉ attr.value)
    (hempty : declaredPrefix? attr.key ≠ some (some ""))
    (hpfx : declaredPrefix? attr.key = some binding.pfx)
    (huri : unescape attr.value = .ok binding.uri.toList) : attr.binding = binding := by
  rw [unescape_of_literal hamp] at huri
  have hsame : String.ofList attr.value = binding.uri := by
    rw [Except.ok.inj huri, String.ofList_toList]
  have hkept : binding.pfx.filter (!·.isEmpty) = binding.pfx := by
    rw [hpfx] at hempty
    cases hcase : binding.pfx with
    | none => rfl
    | some pfx => simp_all [Option.filter_some]
  unfold RawAttribute.binding
  rw [hpfx, hsame, Option.join_some, hkept]

theorem forall₂_isWritten
    (h : List.Forall₂ (fun raw binding => declaredPrefix? raw.key = some binding.pfx
        ∧ unescape raw.value = .ok binding.uri.toList) attrs bindings) :
    List.Forall₂ IsWritten (attrs.map (·.binding)) bindings := by
  rw [List.forall₂_map_left_iff]
  exact h.imp fun raw binding hraw => isWritten_binding hraw.1 hraw.2

theorem map_binding_of_literal
    (hliteral : ∀ attr ∈ attrs, '&' ∉ attr.value ∧ declaredPrefix? attr.key ≠ some (some ""))
    (h : List.Forall₂ (fun raw binding => declaredPrefix? raw.key = some binding.pfx
        ∧ unescape raw.value = .ok binding.uri.toList) attrs bindings) :
    attrs.map (·.binding) = bindings := by
  induction h with
  | nil => rfl
  | cons hfirst _ ih =>
    obtain ⟨hamp, hempty⟩ := hliteral _ List.mem_cons_self
    rw [List.map_cons, binding_of_literal hamp hempty hfirst.1 hfirst.2,
      ih fun other hother => hliteral other (List.mem_cons_of_mem _ hother)]

end Declarations

/-! ### Scopes that hold nested declarations -/

namespace Scope

variable {scope next within : Scope} {outer : List NamespaceBinding} {pfx : String}
  {raw : List Char} {name : QName}

/--
The scope gives each prefix the namespace of its innermost declaration, apart from the two that are built in.
-/
def Holds (scope : Scope) (bindings : List NamespaceBinding) : Prop :=
  ∀ pfx, scope.uri? pfx
    = if pfx = "xml" then some xmlNamespace
      else if pfx = "xmlns" then some xmlnsNamespace
      else (innermost? (written pfx) bindings).map (·.uri)

theorem holds_initial : initial.Holds [] := by
  intro pfx
  by_cases hxml : pfx = "xml"
  · simp [hxml, initial, uri?]
  · by_cases hxmlns : pfx = "xmlns"
    · simp [hxmlns, initial, uri?]
    · simp [hxml, hxmlns, initial, uri?, innermost?, Ne.symm hxml, Ne.symm hxmlns]

theorem filter_eq_written_iff (own : Option String) :
    own.filter (!·.isEmpty) = written pfx ↔ own.getD "" = pfx := by
  unfold written
  cases own with
  | none => by_cases hempty : pfx = "" <;> simp [hempty, eq_comm]
  | some own =>
    by_cases hempty : pfx = ""
    · by_cases hown : own = "" <;> simp [hown, hempty]
    · by_cases hown : own = "" <;> simp [hown, hempty, Ne.symm hempty]

theorem Holds.add {binding : NamespaceBinding} (h : scope.Holds outer)
    (hxmlns : binding.pfx ≠ some "xmlns") :
    (scope.add binding).Holds ({ binding with pfx := binding.pfx.filter (!·.isEmpty) } :: outer) := by
  intro pfx
  by_cases hxml : pfx = "xml"
  · rw [hxml, uri?_add_xml]
    exact h "xml"
  · rw [uri?_add_of_ne scope binding hxml, h pfx, if_neg hxml, if_neg hxml]
    unfold innermost?
    by_cases hsame : binding.pfx.getD "" = pfx
    · have hbuiltin : pfx ≠ "xmlns" := by
        rintro rfl
        cases hpfx : binding.pfx with
        | none => simp [hpfx] at hsame
        | some own => simp_all
      rw [if_pos hsame, if_neg hbuiltin,
        List.find?_cons_of_pos (by simpa [filter_eq_written_iff] using hsame)]
      rfl
    · rw [if_neg hsame, List.find?_cons_of_neg (by simpa [filter_eq_written_iff] using hsame)]

theorem Holds.declare {attr : RawAttribute} (h : scope.Holds outer)
    (hdeclare : scope.declare attr = .ok next) :
    next.Holds (if attr.isDeclaration then attr.binding :: outer else outer) := by
  cases declare_cases hdeclare with
  | inl hother =>
    obtain ⟨hdeclaration, rfl⟩ := hother
    rw [hdeclaration]
    exact h
  | inr hdeclared =>
    obtain ⟨pfx, hpfx, rfl, hallowed⟩ := hdeclared
    have hxmlns : pfx ≠ some "xmlns" := by
      rintro rfl
      simpa using hallowed "xmlns" rfl
    have hbinding : attr.binding
        = { pfx := pfx.filter (!·.isEmpty), uri := String.ofList attr.value } := by
      simp [RawAttribute.binding, hpfx]
    rw [if_pos (by simp [RawAttribute.isDeclaration, hpfx]), hbinding]
    exact Holds.add h hxmlns

theorem Holds.declareAll {attrs : List RawAttribute} (h : scope.Holds outer)
    (hdeclare : scope.declareAll attrs = .ok within) :
    within.Holds (((attrs.filter (·.isDeclaration)).map (·.binding)).reverse ++ outer) := by
  induction attrs generalizing scope outer with
  | nil =>
    obtain rfl := Except.ok.inj hdeclare
    exact h
  | cons attr attrs ih =>
    unfold Scope.declareAll at hdeclare ih
    rw [List.foldlM_cons] at hdeclare
    obtain ⟨next, hnext, hrest⟩ := exists_of_bind_ok hdeclare
    have hwithin := ih (h.declare hnext) hrest
    cases hdeclaration : attr.isDeclaration with
    | false =>
      rw [List.filter_cons_of_neg (by simp [hdeclaration])]
      simpa [hdeclaration] using hwithin
    | true =>
      rw [List.filter_cons_of_pos hdeclaration, List.map_cons, List.reverse_cons, List.append_assoc]
      simpa [hdeclaration] using hwithin

/-! ### Names in such scopes -/

theorem Holds.found? (h : scope.Holds outer) (pfx : String) :
    scope.found? pfx = namespace? outer (written pfx) := by
  unfold Scope.found? namespace?
  rw [h pfx]
  have hxml : written pfx = some "xml" ↔ pfx = "xml" := by
    unfold written
    by_cases hempty : pfx = "" <;> simp [hempty]
  have hxmlns : written pfx = some "xmlns" ↔ pfx = "xmlns" := by
    unfold written
    by_cases hempty : pfx = "" <;> simp [hempty]
  simp only [hxml, hxmlns]
  split
  · rfl
  · split <;> rfl

theorem Holds.resolvePrefix {uri : String} (h : scope.Holds outer)
    (hresolve : scope.resolvePrefix pfx = .ok uri) : namespace? outer (some pfx) = some uri := by
  rw [resolvePrefix_eq, h.found? pfx] at hresolve
  split at hresolve
  · next found hfound =>
    split at hresolve
    · cases hresolve
    · next hempty =>
      rw [← Except.ok.inj hresolve, ← hfound]
      simp [written, show pfx ≠ "" by simpa using hempty]
  · cases hresolve

theorem Holds.elementName (h : scope.Holds outer) (hname : scope.elementName raw = .ok name) :
    name.uri = namespace? outer name.pfx ∧ (name.pfx.isSome = true → name.uri.isSome = true) := by
  unfold Scope.elementName at hname
  split at hname
  · next pfx localName _ =>
    cases hresolve : scope.resolvePrefix pfx with
    | error error => simp [hresolve, Except.map] at hname
    | ok uri =>
      rw [hresolve] at hname
      rw [← Except.ok.inj hname]
      exact ⟨(h.resolvePrefix hresolve).symm, fun _ => rfl⟩
  · rw [← Except.ok.inj hname]
    exact ⟨h.found? "", by simp⟩

theorem Holds.attributeName (h : scope.Holds outer) (hname : scope.attributeName raw = .ok name) :
    (name.uri = name.pfx.bind fun pfx => namespace? outer (some pfx))
      ∧ (name.pfx.isSome = true → name.uri.isSome = true) := by
  unfold Scope.attributeName at hname
  split at hname
  · next pfx localName _ =>
    cases hresolve : scope.resolvePrefix pfx with
    | error error => simp [hresolve, Except.map] at hname
    | ok uri =>
      rw [hresolve] at hname
      rw [← Except.ok.inj hname]
      exact ⟨(h.resolvePrefix hresolve).symm, fun _ => rfl⟩
  · rw [← Except.ok.inj hname]
    exact ⟨rfl, by simp⟩

theorem Holds.openElement {tag : List Char} {start : ElementStart} (h : scope.Holds outer)
    (hopen : scope.openElement tag = .ok (start, within)) :
    ∃ written, within.Holds (written.reverse ++ outer)
      ∧ List.Forall₂ IsWritten written start.namespaces
      ∧ start.ResolvedBy (written.reverse ++ outer)
      ∧ (Tag.Literal tag → written = start.namespaces) := by
  obtain ⟨hdeclare, hname, hfailure, hcollected⟩ := openElement_cases hopen
  rw [Tag.attributes_read_lax hfailure] at hdeclare
  obtain ⟨attributes, hattributes, hresolved⟩ := hcollected.attributes
  obtain ⟨namespaces, hnamespaces, hdeclared⟩ := hcollected.namespaces
  obtain rfl : start.attributes = attributes := hattributes
  obtain rfl : start.namespaces = namespaces := hnamespaces
  have hwithin := h.declareAll hdeclare
  have hattribute : ∀ attr ∈ start.attributes, ∃ raw, within.attributeName raw = .ok attr.name := by
    intro attr hattr
    obtain ⟨raw, _, hok⟩ := exists_of_mem_right hresolved hattr
    exact ⟨raw.key, hok⟩
  refine ⟨(Tag.declarations tag).map (·.binding), hwithin, forall₂_isWritten hdeclared, ?_,
    fun hliteral => map_binding_of_literal hliteral hdeclared⟩
  exact {
    name := (hwithin.elementName hname).1
    attributes := by
      intro attr hattr
      obtain ⟨raw, hok⟩ := hattribute attr hattr
      exact (hwithin.attributeName hok).1
    declared := by
      intro name hmem
      cases List.mem_cons.mp hmem with
      | inl heq => exact heq ▸ (hwithin.elementName hname).2
      | inr hmem =>
        obtain ⟨attr, hattr, rfl⟩ := List.mem_map.mp hmem
        obtain ⟨raw, hok⟩ := hattribute attr hattr
        exact (hwithin.attributeName hok).2 }

end Scope

/-! ### Contents -/

namespace Content

variable {content : Content} {scope : Scope} {outer : List NamespaceBinding}
  {test : List Char → Prop}

theorem Opened.resolvedAsWritten (h : content.Opened test scope) (hscope : scope.Holds outer) :
    content.ResolvedAsWritten outer := by
  induction content generalizing scope outer with
  | empty => trivial
  | text characters rest ih => exact ih h.2 hscope
  | element start inner rest ihInner ihRest =>
    obtain ⟨⟨tag, within, _, hopen, hinner⟩, hrest⟩ := h
    obtain ⟨written, hwithin, hwritten, hresolved, _⟩ := hscope.openElement hopen
    exact ⟨⟨written, hwritten, hresolved, ihInner hinner hwithin⟩, ihRest hrest hscope⟩

theorem Opened.resolved (h : content.Opened Tag.Literal scope) (hscope : scope.Holds outer) :
    content.Resolved outer := by
  induction content generalizing scope outer with
  | empty => trivial
  | text characters rest ih => exact ih h.2 hscope
  | element start inner rest ihInner ihRest =>
    obtain ⟨⟨tag, within, hliteral, hopen, hinner⟩, hrest⟩ := h
    obtain ⟨written, hwithin, _, hresolved, hsame⟩ := hscope.openElement hopen
    rw [hsame hliteral] at hwithin hresolved
    exact ⟨hresolved, ihInner hinner hwithin, ihRest hrest hscope⟩

end Content

/-! ### Documents -/

namespace Document

variable {source : String} {document : Document}

theorem events_of_read (h : read source = .ok document) :
    (Reader.ofText source).events = (document.events, none) := by
  unfold read at h
  split at h
  · next events hevents => rw [hevents, ← Except.ok.inj h]
  · cases h

theorem exists_content_of_read (h : read source = .ok document) :
    ∃ content : Content, document.events = content.events := by
  have hevents := events_of_read h
  obtain ⟨names, hnested, hend, _⟩ := (Reader.tracks_ofText source).events
  rw [hevents] at hnested hend
  obtain rfl := hend rfl
  exact hnested.exists_content

theorem read_resolved (h : read source = .ok document) :
    ∃ content : Content, document.events = content.events
      ∧ content.ResolvedAsWritten []
      ∧ ((∀ tag ∈ Markup.openings (Reader.withoutMark source.toList), Tag.Literal tag) →
          content.Resolved [])
      ∧ ((∀ tag ∈ Markup.openings (Reader.withoutMark source.toList), Tag.Plain tag) →
          ∀ indented, ∃ again, read (document.toXml indented) = .ok again
            ∧ again.tags = document.tags) := by
  obtain ⟨content, hcontent⟩ := exists_content_of_read h
  have hread : (Reader.ofText source).events.1 = content.events := by
    rw [events_of_read h, hcontent]
  refine ⟨content, hcontent, ?_, ?_, ?_⟩
  · have hopened : content.Opened (fun _ => True) .initial :=
      Reader.opened_ofText (fun _ _ => trivial) hread
    exact hopened.resolvedAsWritten Scope.holds_initial
  · intro hliteral
    exact (Reader.opened_ofText hliteral hread).resolved Scope.holds_initial
  · intro hplain indented
    obtain ⟨events⟩ := document
    obtain rfl : events = content.events := hcontent
    exact exists_read_toXml (Reader.readable_ofText hplain hread) indented

def nestedText : String :=
  -- Inside of the entry one prefix is declared again, and there is no default namespace any more.
  "<p:list xmlns:p=\"urn:a\" xmlns=\"urn:b\"><entry xml:lang=\"\" p:key=\"&amp;\">"
    ++ "<p:entry xmlns:p='urn:c' xmlns=''><plain p:key=\"1\"/></p:entry></entry></p:list>"

def nestedContent : Content :=
  let plain : ElementStart := {
    name := { localName := "plain" }
    attributes := [{ name := { localName := "key", pfx := some "p", uri := some "urn:c" }, value := "1" }] }
  let inside : ElementStart := {
    name := { localName := "entry", pfx := some "p", uri := some "urn:c" }
    namespaces := [{ pfx := some "p", uri := "urn:c" }, { pfx := none, uri := "" }] }
  let entry : ElementStart := {
    name := { localName := "entry", uri := some "urn:b" }
    attributes := [
      { name := { localName := "lang", pfx := some "xml", uri := some xmlNamespace }, value := "" },
      { name := { localName := "key", pfx := some "p", uri := some "urn:a" }, value := "&" }] }
  let list : ElementStart := {
    name := { localName := "list", pfx := some "p", uri := some "urn:a" }
    namespaces := [{ pfx := some "p", uri := "urn:a" }, { pfx := none, uri := "urn:b" }] }
  .element list (.element entry (.element inside (.element plain .empty .empty) .empty) .empty) .empty

theorem read_resolved_nestedText :
    read nestedText = .ok { events := nestedContent.events }
      ∧ ∃ content : Content, nestedContent.events = content.events
        ∧ content.ResolvedAsWritten [] ∧ content.Resolved []
        ∧ ∀ indented, ∃ again, read (toXml { events := nestedContent.events } indented) = .ok again
          ∧ again.tags = tags { events := nestedContent.events } := by
  have hread : read nestedText = .ok { events := nestedContent.events } :=
    eq_ok_of_toOption (by decide +kernel)
  have hliteral : ∀ tag ∈ Markup.openings (Reader.withoutMark nestedText.toList), Tag.Literal tag := by
    decide +kernel
  have hplain : ∀ tag ∈ Markup.openings (Reader.withoutMark nestedText.toList), Tag.Plain tag := by
    decide +kernel
  obtain ⟨content, hcontent, hwritten, hresolved, hagain⟩ := read_resolved hread
  exact ⟨hread, content, hcontent, hwritten, hresolved hliteral, hagain hplain⟩

def referenceText : String :=
  "<pipeline xmlns=\"http://www.armatiek.com/xslweb/pipelin&#101;\"/>"

def referenceStart : ElementStart where
  name := {
    localName := "pipeline"
    uri := some "http://www.armatiek.com/xslweb/pipelin&#101;" }
  namespaces := [{ pfx := none, uri := pipelineNamespace }]

def referenceDocument : Document where
  events := [.opening referenceStart, .closing referenceStart.name]

/--
A reference in a declaration is left in the namespace of the name but not in the one that is reported, and
it is no longer there after writing.
-/
theorem read_referenceText :
    read referenceText = .ok referenceDocument
      ∧ referenceStart.name.isIn pipelineNamespace = false
      ∧ ¬ referenceStart.ResolvedBy referenceStart.namespaces.reverse
      ∧ ∃ again, read (referenceDocument.toXml false) = .ok again
        ∧ again.root?.map (·.name.isIn pipelineNamespace) = some true := by
  refine ⟨eq_ok_of_toOption (by decide +kernel), by decide, fun h => absurd h.name (by decide), ?_⟩
  have hsome : (read (referenceDocument.toXml false)).toOption.map
      (fun again => again.root?.map (·.name.isIn pipelineNamespace)) = some (some true) := by
    decide +kernel
  obtain ⟨again, hagain, hroot⟩ := Option.map_eq_some_iff.mp hsome
  exact ⟨again, eq_ok_of_toOption hagain, hroot⟩

end Document
end Xml
end XmlPipeline
