import XmlPipeline.Proofs.Archive.Reading
import XmlPipeline.Proofs.Output.Reliable
import XmlPipeline.Proofs.Pipeline.Opening
import XmlPipeline.Proofs.Result
import XmlPipeline.Proofs.Xml.Content

/-!
This module contains the entries of the archive that a document describes. The main statement says which
elements have one, wherever they stand. As only one `inline-file` element is remembered at a time, one that has
another one inside is forgotten with all the character data in it.
-/

namespace XmlPipeline
namespace Xml

/-! ### Entries of elements -/

namespace ElementStart

def isInlineFile (start : ElementStart) : Bool :=
  start.name.localName == "inline-file"

def isFile (start : ElementStart) : Bool :=
  start.name.localName == "file"

def valueOf (start : ElementStart) (attr : String) : String :=
  (start.attribute? attr).getD ""

def fileEntry (base : Option Path) (start : ElementStart) : List PlannedEntry :=
  if start.isFile then
    let src : Path := ⟨start.valueOf "src"⟩
    [.file (base.elim src (·.join src)) (start.valueOf "path")]
  else
    []

def inlineEntry (start : ElementStart) (inner : Content) : List PlannedEntry :=
  if start.isInlineFile then [.inline (start.valueOf "path") inner.allCharacters] else []

end ElementStart

namespace Content

/--
The entries of all elements of a content. The entry for the character data of an element comes after the
entries of the elements inside of it, and it is there only if what is inside passes a test.
-/
def entries (base : Option Path) (isKept : Content → Bool) : Content → List PlannedEntry
  | empty => []
  | text _ rest => rest.entries base isKept
  | element start inner rest =>
    start.fileEntry base ++ inner.entries base isKept
      ++ (if isKept inner then start.inlineEntry inner else []) ++ rest.entries base isKept

def hasInlineFile : Content → Bool
  | empty => false
  | text _ rest => rest.hasInlineFile
  | element start inner rest => start.isInlineFile || inner.hasInlineFile || rest.hasInlineFile

def InlineFilesApart : Content → Prop
  | empty => True
  | text _ rest => rest.InlineFilesApart
  | element start inner rest =>
    (start.isInlineFile = true → inner.hasInlineFile = false)
      ∧ inner.InlineFilesApart ∧ rest.InlineFilesApart

instance decidableInlineFilesApart : (content : Content) → Decidable content.InlineFilesApart
  | empty => .isTrue trivial
  | text _ rest => rest.decidableInlineFilesApart
  | element start inner rest =>
    have := inner.decidableInlineFilesApart
    have := rest.decidableInlineFilesApart
    inferInstanceAs <| Decidable <|
      (start.isInlineFile = true → inner.hasInlineFile = false)
        ∧ inner.InlineFilesApart ∧ rest.InlineFilesApart

def isWhole (inner : Content) : Bool :=
  !inner.hasInlineFile

theorem entries_perm (base : Option Path) (isKept : Content → Bool) (content : Content) :
    (content.entries base isKept).Perm <| content.elements.flatMap fun (start, inner) =>
      start.fileEntry base ++ if isKept inner then start.inlineEntry inner else [] := by
  induction content with
  | empty => exact .nil
  | text characters rest ih => exact ih
  | element start inner rest ihInner ihRest =>
    let own := if isKept inner then start.inlineEntry inner else []
    have hinner := List.perm_append_comm.trans (ihInner.append_left own)
    have hall := ((hinner.append ihRest).append_left (start.fileEntry base))
    simp only [own, List.append_assoc] at hall
    simpa [entries, elements, List.flatMap_append] using hall

/-! ### The entries of a whole content -/

theorem length_kept_le (start : ElementStart) (inner : Content) :
    (if isWhole inner then start.inlineEntry inner else []).length ≤ (start.inlineEntry inner).length := by
  split <;> simp

theorem length_entries_le (base : Option Path) (content : Content) :
    (content.entries base isWhole).length ≤ (content.entries base fun _ => true).length := by
  induction content with
  | empty => exact Nat.le_refl _
  | text characters rest ih => exact ih
  | element start inner rest ihInner ihRest =>
    have hown := length_kept_le start inner
    simp only [entries, List.length_append, ↓reduceIte]
    omega

theorem inlineFilesApart_of_length (base : Option Path) (content : Content)
    (h : (content.entries base isWhole).length = (content.entries base fun _ => true).length) :
    content.InlineFilesApart := by
  -- No entry can be missing in one place and be made up for in another one.
  induction content with
  | empty => trivial
  | text characters rest ih => exact ih h
  | element start inner rest ihInner ihRest =>
    have hinner := length_entries_le base inner
    have hrest := length_entries_le base rest
    have hown := length_kept_le start inner
    simp only [entries, List.length_append, ↓reduceIte] at h
    refine ⟨?_, ihInner (by omega), ihRest (by omega)⟩
    intro hinline
    have hsame : (if isWhole inner then start.inlineEntry inner else []).length = 1 := by
      have hone : (start.inlineEntry inner).length = 1 := by simp [ElementStart.inlineEntry, hinline]
      omega
    cases hhas : inner.hasInlineFile with
    | false => rfl
    | true => simp [isWhole, hhas] at hsame

theorem entries_eq_iff (base : Option Path) (content : Content) :
    content.entries base isWhole = content.entries base (fun _ => true) ↔ content.InlineFilesApart := by
  constructor
  · intro h
    exact inlineFilesApart_of_length base content (congrArg List.length h)
  · intro h
    induction content with
    | empty => rfl
    | text characters rest ih => exact ih h
    | element start inner rest ihInner ihRest =>
      obtain ⟨hapart, hinner, hrest⟩ := h
      have hown : (if isWhole inner then start.inlineEntry inner else []) = start.inlineEntry inner := by
        cases hinline : start.isInlineFile with
        | true => simp [isWhole, hapart hinline]
        | false => simp [ElementStart.inlineEntry, hinline]
      rw [entries, entries, ihInner hinner, ihRest hrest, hown, if_pos rfl]

end Content

/-! ### The plan of an archive -/

namespace ArchivePlan

variable {base : Option Path} {plan next : ArchivePlan} {start : ElementStart}

theorem valueOf_of_require {element attr value : String}
    (h : Attribute.require (start.attribute? attr) element attr = .ok value) : start.valueOf attr = value := by
  obtain ⟨other, hattr, hvalue, _⟩ | ⟨herror, _⟩ := Attribute.require_cases start element attr
  · obtain rfl := Except.ok.inj (hvalue.symm.trans h)
    simp [ElementStart.valueOf, hattr]
  · rw [herror] at h
    cases h

theorem add_opening (base : Option Path) (plan : ArchivePlan) (start : ElementStart) :
    plan.add base (.opening start)
      = if start.isInlineFile then do
          let name ← Attribute.require (start.attribute? "path") "inline-file" "path"
          return { plan with collecting := some (name, "") }
        else if start.isFile then do
          let src ← Attribute.require (start.attribute? "src") "file" "src"
          let name ← Attribute.require (start.attribute? "path") "file" "path"
          return { plan with entries := plan.entries ++ [.file (source base src) name] }
        else
          return plan :=
  rfl

def opened (plan : ArchivePlan) (base : Option Path) (start : ElementStart) : ArchivePlan where
  entries := plan.entries ++ start.fileEntry base
  collecting := if start.isInlineFile then some (start.valueOf "path", "") else plan.collecting

theorem eq_opened_of_add (h : plan.add base (.opening start) = .ok next) : next = plan.opened base start := by
  rw [add_opening] at h
  unfold opened ElementStart.fileEntry
  cases hinline : start.isInlineFile with
  | true =>
    have hfile : start.isFile = false := by
      simp only [ElementStart.isInlineFile, beq_iff_eq] at hinline
      simp [ElementStart.isFile, hinline]
    rw [if_pos hinline] at h
    obtain ⟨name, hname, hnext⟩ := exists_of_bind_ok h
    rw [← Except.ok.inj hnext, ← valueOf_of_require hname]
    simp [hfile]
  | false =>
    rw [if_neg (by simp [hinline])] at h
    cases hfile : start.isFile with
    | true =>
      rw [if_pos hfile] at h
      obtain ⟨src, hsrc, hmore⟩ := exists_of_bind_ok h
      obtain ⟨name, hname, hnext⟩ := exists_of_bind_ok hmore
      rw [← Except.ok.inj hnext, ← valueOf_of_require hsrc, ← valueOf_of_require hname]
      cases base <;> simp [source]
    | false =>
      rw [if_neg (by simp [hfile])] at h
      rw [← Except.ok.inj h]
      simp

theorem add_closing_of_inlineFile (h : start.isInlineFile = true) (base : Option Path)
    (plan : ArchivePlan) :
    plan.add base (.closing start.name) = .ok {
      entries := plan.entries ++ plan.collecting.toList.map fun (name, content) => .inline name content
      collecting := none } := by
  have hname : (start.name.localName == "inline-file") = true := h
  obtain ⟨entries, collecting⟩ := plan
  cases collecting with
  | none => simp [add, pure, Except.pure]
  | some entry => simp [add, hname, pure, Except.pure]

theorem add_closing_of_other (h : start.isInlineFile = false) (base : Option Path) (plan : ArchivePlan) :
    plan.add base (.closing start.name) = .ok plan := by
  have hname : (start.name.localName == "inline-file") = false := h
  obtain ⟨entries, collecting⟩ := plan
  cases collecting with
  | none => rfl
  | some entry => simp [add, hname, pure, Except.pure]

/--
The plan after a whole content. Inside of an element that is being remembered, nothing is any more after another
`inline-file` element.
-/
def after (plan : ArchivePlan) (base : Option Path) (content : Content) : ArchivePlan where
  entries := plan.entries ++ content.entries base Content.isWhole
  collecting :=
    if content.hasInlineFile then
      none
    else
      plan.collecting.map fun (name, before) => (name, before ++ content.allCharacters)

theorem eq_after_of_foldlM {content : Content}
    (h : content.events.foldlM (add base) plan = .ok next) : next = plan.after base content := by
  induction content generalizing plan next with
  | empty =>
    rw [← Except.ok.inj h]
    simp [after, Content.entries, Content.hasInlineFile, Content.allCharacters]
  | text characters rest ih =>
    rw [Content.events, List.foldlM_cons] at h
    obtain ⟨read, hread, hrest⟩ := exists_of_bind_ok h
    rw [ih hrest, ← Except.ok.inj hread]
    cases hhas : rest.hasInlineFile <;>
      simp [after, Content.entries, Content.hasInlineFile, Content.allCharacters, hhas, Function.comp_def,
        String.append_assoc]
  | element start inner rest ihInner ihRest =>
    rw [Content.events, List.cons_append, List.foldlM_cons] at h
    obtain ⟨opened, hopened, hinside⟩ := exists_of_bind_ok h
    rw [List.foldlM_append] at hinside
    obtain ⟨inside, hinner, hmore⟩ := exists_of_bind_ok hinside
    rw [List.foldlM_cons] at hmore
    obtain ⟨closed, hclosed, hrest⟩ := exists_of_bind_ok hmore
    obtain rfl := eq_opened_of_add hopened
    obtain rfl := ihInner hinner
    rw [ihRest hrest]
    cases hinline : start.isInlineFile with
    | true =>
      rw [add_closing_of_inlineFile hinline] at hclosed
      rw [← Except.ok.inj hclosed]
      cases hhas : inner.hasInlineFile <;>
        simp [after, opened, Content.entries, Content.hasInlineFile, Content.isWhole,
          ElementStart.inlineEntry, hinline, hhas]
    | false =>
      rw [add_closing_of_other hinline] at hclosed
      rw [← Except.ok.inj hclosed]
      cases hhas : inner.hasInlineFile <;>
        simp [after, opened, Content.entries, Content.hasInlineFile, Content.isWhole,
          Content.allCharacters, ElementStart.inlineEntry, hinline, hhas, Function.comp_def,
          String.append_assoc]

end ArchivePlan

/-! ### The archive -/

namespace PlannedEntry

/--
What the archive holds for an entry: the characters that belong to it as UTF-8, or all bytes of the file.
-/
inductive Loaded (files : FileReader) : PlannedEntry → Archive.Entry → Prop where
  | inline (name characters : String) :
    Loaded files (.inline name characters) { name, content := utf8 characters }
  | file {source : Path} {name : String} {content : List UInt8}
    (read : files.readBytes source = .ok content) :
    Loaded files (.file source name) { name, content }

variable {files : FileReader} {planned : PlannedEntry} {entry : Archive.Entry}

theorem loaded_of_load (h : planned.load files = .ok entry) : Loaded files planned entry := by
  cases planned with
  | inline name characters =>
    obtain rfl := Except.ok.inj h
    exact .inline name characters
  | file source name =>
    obtain ⟨content, hread, hentry⟩ := exists_of_bind_ok h
    obtain rfl := Except.ok.inj hentry
    exact .file (exists_of_mapError_ok hread)

end PlannedEntry
end Xml

open Xml

namespace BodyFormat

section

variable {σ : Type} [ByteWriter σ] {base : Option Path} {files : FileReader} {content : Content}
  {out after : σ}

/--
The body of a document is an archive with one entry for each `file` element, and one for each `inline-file`
element that has no other one inside, with all the character data in it as UTF-8. No entry is missing exactly
if no `inline-file` element stands inside of another one.
-/
theorem writeBody_zip (h : (zip base).writeBody files { events := content.events } out = (.ok (), after)) :
    ∃ entries, (content.entries base Content.isWhole).mapM (PlannedEntry.load files) = .ok entries
      ∧ List.Forall₂ (PlannedEntry.Loaded files) (content.entries base Content.isWhole) entries
      ∧ ByteWriter.writeAll (Archive.write entries) out = (.ok (), after)
      ∧ (∀ reliable : Reliable σ, reliable.healthy out →
        reliable.received after = reliable.received out ++ Archive.write entries)
      ∧ (Archive.Fit entries → Archive.read? (Archive.write entries) = some entries)
      ∧ (content.entries base Content.isWhole).Perm (content.elements.flatMap fun (start, inner) =>
        start.fileEntry base ++ if inner.isWhole then start.inlineEntry inner else [])
      ∧ (content.entries base Content.isWhole = content.entries base (fun _ => true)
        ↔ content.InlineFilesApart) := by
  unfold writeBody zip at h
  simp only at h
  cases hentries : Document.archiveEntries files base { events := content.events } with
  | error error => simp [hentries, Except.map] at h
  | ok entries =>
    simp only [hentries, Except.map] at h
    have hwrite : ByteWriter.writeAll (Archive.write entries) out = (.ok (), after) := by
      obtain ⟨hresult, hafter⟩ := Prod.mk.inj h
      exact Prod.ext (exists_of_mapError_ok hresult) hafter
    unfold Document.archiveEntries at hentries
    obtain ⟨plan, hplan, hload⟩ := exists_of_bind_ok hentries
    obtain rfl := ArchivePlan.eq_after_of_foldlM hplan
    have hloaded : List.Forall₂ (PlannedEntry.Loaded files) _ entries :=
      (forall₂_of_mapM_ok hload).imp fun _ _ => PlannedEntry.loaded_of_load
    refine ⟨entries, hload, hloaded, hwrite, ?_, Archive.read?_write, content.entries_perm base _,
      content.entries_eq_iff base⟩
    intro reliable hout
    obtain ⟨written, hsame, hreceived, _⟩ := reliable.writeAll (Archive.write entries) hout
    rw [hwrite] at hsame
    obtain rfl := (Prod.mk.inj hsame).2
    exact hreceived

end

def entryStart (name : String) (values : List (String × String)) : ElementStart where
  name := { localName := name }
  attributes := values.map fun (attr, value) => { name := { localName := attr }, value }

def packedFiles : FileReader where
  readBytes path := if path = ⟨"data/f.bin"⟩ then .ok [1, 2] else .error .notFound

def packedContent : Content :=
  -- Character data around another element, and an element that stands for a file inside of one that does not.
  .element (entryStart "zip" [])
    (.element (entryStart "inline-file" [("path", "a.txt")])
      (.text "x" (.element (entryStart "b" []) (.text "y" .empty) (.text "z" .empty)))
      (.text " " (.element (entryStart "part" [])
        (.element (entryStart "file" [("src", "f.bin"), ("path", "f")]) .empty .empty)
        .empty)))
    .empty

theorem writeBody_zip_packedContent :
    ∃ after : ByteSink,
      (zip (some ⟨"data"⟩)).writeBody packedFiles { events := packedContent.events } {} = (.ok (), after)
        ∧ packedContent.InlineFilesApart
        ∧ Archive.read? after.received.toList
          = some [{ name := "a.txt", content := utf8 "xyz" }, { name := "f", content := [1, 2] }] := by
  let written :=
    (zip (some ⟨"data"⟩)).writeBody packedFiles { events := packedContent.events } ({} : ByteSink)
  have hwritten : written.1 = .ok () := eq_ok_of_toOption (by decide +kernel)
  have hbody : written = (.ok (), written.2) := Prod.ext hwritten rfl
  have happart : packedContent.InlineFilesApart := by decide
  obtain ⟨entries, hload, _, _, hreceived, hread, _, _⟩ := writeBody_zip hbody
  obtain rfl : [{ name := "a.txt", content := utf8 "xyz" }, { name := "f", content := [1, 2] }] = entries :=
    Except.ok.inj hload
  have hfit : Archive.Fit [{ name := "a.txt", content := utf8 "xyz" }, { name := "f", content := [1, 2] }] :=
    ⟨by decide, by decide +kernel, by decide +kernel⟩
  have hbytes : written.2.received.toList = [] ++ Archive.write _ :=
    hreceived ByteSink.reliable ⟨rfl, by simp, rfl⟩
  refine ⟨written.2, hbody, happart, ?_⟩
  rw [hbytes]
  exact hread hfit

def nestedInlineFiles : Content :=
  .element (entryStart "zip" [])
    (.element (entryStart "inline-file" [("path", "a.txt")])
      (.text "x"
        (.element (entryStart "inline-file" [("path", "b.txt")]) (.text "y" .empty) (.text "z" .empty)))
      .empty)
    .empty

theorem writeBody_nestedInlineFiles :
    let written := (zip none).writeBody packedFiles { events := nestedInlineFiles.events } ({} : ByteSink)
    written.1.toOption = some ()
      ∧ nestedInlineFiles.entries none (fun _ => true) = [.inline "b.txt" "y", .inline "a.txt" "xyz"]
      ∧ Archive.read? written.2.received.toList = some [{ name := "b.txt", content := utf8 "y" }] := by
  intro written
  refine ⟨?_, ?_, ?_⟩ <;> decide +kernel

end BodyFormat
end XmlPipeline
