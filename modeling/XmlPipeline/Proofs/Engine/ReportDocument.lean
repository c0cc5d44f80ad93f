import XmlPipeline.Engine.Report
import XmlPipeline.Proofs.Text.Unsigned
import XmlPipeline.Proofs.Xml.RoundTrip

/-!
This module contains the documents of validation reports after they were written and read. A report can be read
back from its document in any case, but the document is the same only if no finding has an empty message.
-/

namespace XmlPipeline

open Xml (Content Document ElementStart Event)

namespace Severity

def ofName? (name : String) : Option Severity :=
  [warning, error, fatal].find? (·.name == name)

theorem ofName?_name (severity : Severity) : ofName? severity.name = some severity := by
  cases severity <;> decide

end Severity

/-! ### Reading a report from its document -/

def Text.decimal? (text : String) : Option Nat :=
  if text ≠ "" ∧ text.toList.all Char.isDigit then some (Nat.ofDigitChars 10 text.toList 0) else none

theorem Text.decimal?_toString (n : Nat) : decimal? (toString n) = some n := by
  have hchars : (toString n).toList = Nat.toDigits 10 n := String.toList_ofList
  have hdigits : (Nat.toDigits 10 n).all Char.isDigit = true := List.all_eq_true.mpr (isDigit_toDigits n)
  have hnonempty : toString n ≠ "" := by
    intro hempty
    rw [hempty] at hchars
    exact Nat.toDigits_ne_nil hchars.symm
  unfold decimal?
  rw [hchars, if_pos ⟨hnonempty, hdigits⟩, Nat.ofDigitChars_ten_toDigits]

namespace Finding

def ofElement? (start : ElementStart) (message : String) : Option Finding :=
  if start.name = elementName then do
    let severity ← (start.attribute? "severity").bind Severity.ofName?
    let line ← (start.attribute? "line").mapM Text.decimal?
    let column ← (start.attribute? "column").mapM Text.decimal?
    return { severity, message, line, column }
  else
    none

def start (finding : Finding) : ElementStart where
  name := elementName
  attributes := finding.attributes

theorem attribute?_start (finding : Finding) :
    finding.start.attribute? "severity" = some finding.severity.name
      ∧ finding.start.attribute? "line" = finding.line.map toString
      ∧ finding.start.attribute? "column" = finding.column.map toString := by
  obtain ⟨severity, message, line, column⟩ := finding
  cases line <;> cases column <;> exact ⟨rfl, rfl, rfl⟩

theorem ofElement?_start (finding : Finding) :
    ofElement? finding.start finding.message = some finding := by
  obtain ⟨hseverity, hline, hcolumn⟩ := finding.attribute?_start
  have hnumber : ∀ number : Option Nat, (number.map toString).mapM Text.decimal? = some number := by
    intro number
    cases number with
    | none => rfl
    | some n => exact congrArg (Option.map some) (Text.decimal?_toString n)
  have hname : finding.start.name = elementName := rfl
  unfold ofElement?
  rw [if_pos hname, hseverity, hline, hcolumn, hnumber, hnumber]
  simp [Severity.ofName?_name]

end Finding

namespace ValidationReport

def findings? : List Event → Option (List Finding)
  | [.closing name] => if name = rootName then some [] else none
  | .opening start :: .text message :: .closing _ :: events => do
    return (← Finding.ofElement? start message) :: (← findings? events)
  | .opening start :: .closing _ :: events => do
    return (← Finding.ofElement? start "") :: (← findings? events)
  | _ => none

def verdict? : String → Option Bool
  | "true" => some true
  | "false" => some false
  | _ => none

/--
The report that a document is made of, and whether the document says that it found nothing worse than a
warning.
-/
def ofDocument? (document : Document) : Option (ValidationReport × Bool) :=
  match document.events with
  | .opening start :: events =>
    if start.name = rootName then do
      let label ← start.attribute? "label"
      let isValid ← (start.attribute? "valid").bind verdict?
      let findings ← findings? events
      return ({ label, findings }, isValid)
    else
      none
  | _ => none

end ValidationReport

/-! ### Documents without empty texts -/

namespace Xml

def Event.isWritten (event : Event) : Bool :=
  event ≠ .text ""

theorem Document.toXml_written (events : List Event) :
    toXml { events := events.filter Event.isWritten } false = toXml { events } false := by
  rw [toXml_eq, toXml_eq]
  congr 1
  induction events with
  | nil => rfl
  | cons event events ih =>
    rw [List.filter_cons]
    split
    · exact congrArg (event.markup ++ ·) ih
    · next hempty =>
      obtain rfl : event = .text "" := by simpa [Event.isWritten] using hempty
      exact ih

theorem ElementStart.wellFormed_of_names {start : ElementStart} {bindings : List NamespaceBinding}
    {names : List String}
    (hattributes : start.attributes.map (·.name) = names.map fun localName => { localName })
    (hnames : ∀ name ∈ names, IsNCName name ∧ name ≠ "xmlns") (hdistinct : names.Nodup)
    (hwritable : start.name.IsWritable) (hresolved : start.name.IsElementName bindings)
    (hdeclared : ∀ binding ∈ start.namespaces, binding.WellFormed)
    (hprefixes : (start.namespaces.map (·.pfx)).Nodup) : start.WellFormed bindings := by
  have hplain : ∀ attr ∈ start.attributes, ∃ name ∈ names, attr.name = { localName := name } := by
    intro attr hattr
    have hname : attr.name ∈ start.attributes.map (·.name) := List.mem_map_of_mem hattr
    rw [hattributes] at hname
    obtain ⟨name, hmem, heq⟩ := List.mem_map.mp hname
    exact ⟨name, hmem, heq.symm⟩
  refine ⟨hwritable, hresolved, ?_, ?_, ?_, ?_, hdeclared, hprefixes⟩
  · intro attr hattr
    obtain ⟨name, hmem, heq⟩ := hplain attr hattr
    rw [heq]
    exact ⟨(hnames name hmem).1, nofun⟩
  · intro attr hattr
    obtain ⟨name, _, heq⟩ := hplain attr hattr
    rw [heq]
    rfl
  · intro attr hattr
    obtain ⟨name, hmem, heq⟩ := hplain attr hattr
    rw [heq]
    exact ⟨(hnames name hmem).2, nofun⟩
  · have hlexical : start.attributes.map (·.name.lexical) = names := by
      have hmap := congrArg (List.map QName.lexical) hattributes
      rw [List.map_map, List.map_map] at hmap
      exact hmap.trans (List.map_id' names)
    rw [hlexical]
    exact hdistinct

end Xml

namespace Finding

def content (finding : Finding) (rest : Content) : Content :=
  .element finding.start (if finding.message = "" then .empty else .text finding.message .empty) rest

theorem events_written (finding : Finding) :
    finding.events.filter Event.isWritten
      = if finding.message = "" then [.opening finding.start, .closing elementName] else finding.events := by
  unfold events
  split
  · next hempty =>
    rw [hempty]
    rfl
  · next hmessage =>
    have hwritten : (Event.text finding.message).isWritten = true := by
      simpa [Event.isWritten] using hmessage
    rw [List.filter_cons_of_pos rfl, List.filter_cons_of_pos hwritten]
    rfl

theorem events_content (finding : Finding) (rest : Content) :
    (finding.content rest).events = finding.events.filter Event.isWritten ++ rest.events := by
  rw [events_written]
  unfold content
  split <;> rfl

theorem wellFormed_start (finding : Finding) :
    finding.start.WellFormed [{ pfx := none, uri := validationNamespace }] := by
  obtain ⟨severity, message, line, column⟩ := finding
  let names := "severity" :: ((line.map fun _ => "line").toList ++ (column.map fun _ => "column").toList)
  have hattributes : (Finding.attributes ⟨severity, message, line, column⟩).map (·.name)
      = names.map fun localName => { localName } := by
    cases line <;> cases column <;> rfl
  have hline : (line.map fun _ => "line").toList.Sublist ["line"] := by cases line <;> simp
  have hcolumn : (column.map fun _ => "column").toList.Sublist ["column"] := by cases column <;> simp
  have hnames : names.Sublist ["severity", "line", "column"] := (hline.append hcolumn).cons_cons "severity"
  have hwritable : ∀ name ∈ ["severity", "line", "column"], Xml.IsNCName name ∧ name ≠ "xmlns" := by
    decide
  have hdistinct : ["severity", "line", "column"].Nodup := by decide
  have helement : elementName.IsWritable
      ∧ elementName.IsElementName [{ pfx := none, uri := validationNamespace }] := by decide
  exact Xml.ElementStart.wellFormed_of_names hattributes
    (fun name hname => hwritable name (hnames.subset hname)) (hdistinct.sublist hnames) helement.1
    helement.2 nofun List.nodup_nil

end Finding

namespace ValidationReport

def content (report : ValidationReport) : Content :=
  .element report.root (report.findings.foldr Finding.content .empty) .empty

theorem events_content (report : ValidationReport) :
    report.content.events = report.toDocument.events.filter Event.isWritten := by
  have hfindings : ∀ findings : List Finding, (findings.foldr Finding.content .empty).events
      = (findings.flatMap Finding.events).filter Event.isWritten := by
    intro findings
    induction findings with
    | nil => rfl
    | cons finding findings ih =>
      rw [List.foldr_cons, finding.events_content, ih, List.flatMap_cons, List.filter_append]
  unfold content toDocument Content.events
  simp only
  rw [hfindings, List.cons_append, List.cons_append, List.filter_cons_of_pos rfl, List.filter_append]
  rfl

theorem wellFormed_findings (findings : List Finding) :
    (findings.foldr Finding.content .empty).WellFormed [{ pfx := none, uri := validationNamespace }] := by
  induction findings with
  | nil => trivial
  | cons finding findings ih =>
    refine ⟨finding.wellFormed_start, ?_, ih⟩
    split
    · trivial
    · next hmessage => exact ⟨hmessage, id, trivial⟩

theorem wellFormed_content (report : ValidationReport) : report.content.WellFormed [] := by
  refine ⟨?_, wellFormed_findings report.findings, trivial⟩
  have hattributes : report.root.attributes.map (·.name)
      = ["label", "valid"].map fun localName => { localName } := rfl
  have helement : rootName.IsWritable
      ∧ rootName.IsElementName [{ pfx := none, uri := validationNamespace }] := by decide
  have hdeclared : ∀ binding ∈ [{ pfx := none, uri := validationNamespace }],
      Xml.NamespaceBinding.WellFormed binding := by decide
  exact Xml.ElementStart.wellFormed_of_names hattributes (by decide) (by decide) helement.1 helement.2
    hdeclared (List.nodup_cons.mpr ⟨List.not_mem_nil, List.nodup_nil⟩)

/-! ### Writing and reading -/

theorem findings?_cons {finding : Finding} {events : List Event} {findings : List Finding}
    (h : findings? events = some findings) :
    findings? (finding.events ++ events) = some (finding :: findings) := by
  have hevents : finding.events ++ events
      = .opening finding.start :: .text finding.message :: .closing Finding.elementName :: events := rfl
  rw [hevents, findings?, finding.ofElement?_start, h]
  rfl

theorem findings?_cons_written {finding : Finding} {events : List Event} {findings : List Finding}
    (h : findings? events = some findings) :
    findings? (finding.events.filter Event.isWritten ++ events) = some (finding :: findings) := by
  rw [finding.events_written]
  split
  · next hempty =>
    have hfinding : Finding.ofElement? finding.start "" = some finding :=
      hempty ▸ finding.ofElement?_start
    have hevents : [Event.opening finding.start, .closing Finding.elementName] ++ events
        = .opening finding.start :: .closing Finding.elementName :: events := rfl
    rw [hevents, findings?, hfinding, h]
    rfl
  · exact findings?_cons h

theorem findings?_events (findings : List Finding) :
    findings? (findings.flatMap Finding.events ++ [.closing rootName]) = some findings := by
  induction findings with
  | nil => rfl
  | cons finding findings ih =>
    rw [List.flatMap_cons, List.append_assoc]
    exact findings?_cons ih

theorem findings?_written (findings : List Finding) :
    findings? ((findings.flatMap Finding.events ++ [Event.closing rootName]).filter Event.isWritten)
      = some findings := by
  induction findings with
  | nil => rfl
  | cons finding findings ih =>
    rw [List.flatMap_cons, List.append_assoc, List.filter_append]
    exact findings?_cons_written ih

theorem ofDocument?_of_findings? (report : ValidationReport) {events : List Event}
    (h : findings? events = some report.findings) :
    ofDocument? { events := .opening report.root :: events } = some (report, report.isValid) := by
  have hlabel : report.root.attribute? "label" = some report.label := rfl
  have hvalid : (report.root.attribute? "valid").bind verdict? = some report.isValid := by
    have hverdict : report.root.attribute? "valid" = some (if report.isValid then "true" else "false") := rfl
    rw [hverdict]
    cases report.isValid <;> rfl
  have hname : report.root.name = rootName := rfl
  unfold ofDocument?
  simp only
  rw [if_pos hname, hlabel, hvalid, h]
  rfl

theorem text_mem_toDocument (report : ValidationReport) (text : String) :
    .text text ∈ report.toDocument.events ↔ ∃ finding ∈ report.findings, finding.message = text := by
  unfold toDocument
  simp [Finding.events, eq_comm]

theorem filter_isWritten_eq_iff (report : ValidationReport) :
    report.toDocument.events.filter Event.isWritten = report.toDocument.events
      ↔ ∀ finding ∈ report.findings, finding.message ≠ "" := by
  have hempty : (∀ finding ∈ report.findings, finding.message ≠ "")
      ↔ .text "" ∉ report.toDocument.events := by
    rw [text_mem_toDocument]
    simp
  rw [List.filter_eq_self, hempty]
  constructor
  · intro h hmem
    exact Bool.false_ne_true (h (.text "") hmem)
  · intro h event hmem
    unfold Event.isWritten
    exact decide_eq_true fun heq => h (heq ▸ hmem)

theorem read_toXml_content (report : ValidationReport) :
    Document.read (report.toDocument.toXml false) = .ok { events := report.content.events } := by
  have hxml : Document.toXml { events := report.content.events } false = report.toDocument.toXml false := by
    rw [events_content]
    exact Document.toXml_written report.toDocument.events
  rw [← hxml, Document.toXml_eq]
  exact Document.read_markup (report.wellFormed_content.readable (by simp)) report.wellFormed_content.textsApart

/--
The document of a report is read as it was written, except for the texts of findings whose messages are empty.
The report can be read back from either document.
-/
theorem read_toDocument (report : ValidationReport) :
    ∃ document, Document.read (report.toDocument.toXml false) = .ok document
      ∧ document.events = report.toDocument.events.filter (· ≠ .text "")
      ∧ (document = report.toDocument ↔ ∀ finding ∈ report.findings, finding.message ≠ "")
      ∧ ofDocument? document = some (report, report.isValid)
      ∧ ofDocument? report.toDocument = some (report, report.isValid) := by
  have hevents : report.content.events = report.toDocument.events.filter Event.isWritten :=
    report.events_content
  refine ⟨{ events := report.content.events }, report.read_toXml_content, hevents, ?_, ?_, ?_⟩
  · rw [← report.filter_isWritten_eq_iff, ← hevents]
    exact ⟨congrArg Document.events, congrArg Document.mk⟩
  · rw [hevents]
    exact report.ofDocument?_of_findings? (findings?_written report.findings)
  · exact report.ofDocument?_of_findings? (findings?_events report.findings)

def unexplainedReport : ValidationReport where
  label := "Step: check"
  findings := [{ severity := .error, message := "" }]

theorem read_unexplainedReport :
    ∃ document, Document.read (unexplainedReport.toDocument.toXml false) = .ok document
      ∧ document ≠ unexplainedReport.toDocument :=
  ⟨_, unexplainedReport.read_toXml_content, by decide⟩

end ValidationReport
end XmlPipeline
