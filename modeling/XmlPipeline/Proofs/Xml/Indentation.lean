import XmlPipeline.Proofs.Xml.RoundTrip

/-!
This module contains the markup of documents that is indented, and what is read from it. There are texts in
it that the documents do not have, but its tags are those of the documents.
-/

namespace XmlPipeline
namespace Xml

namespace Event

def isTag : Event → Bool
  | opening _ => true
  | text _ => false
  | closing _ => true

@[simp]
theorem isTag_opening (start : ElementStart) : (opening start).isTag = true := rfl

@[simp]
theorem isTag_text (content : String) : (text content).isTag = false := rfl

@[simp]
theorem isTag_closing (name : QName) : (closing name).isTag = true := rfl

end Event

namespace Document

def tags (document : Document) : List Event :=
  document.events.filter (·.isTag)

end Document

theorem filter_isTag_joinTexts (events : List Event) :
    (joinTexts events).filter (·.isTag) = events.filter (·.isTag) := by
  induction events with
  | nil => rfl
  | cons event events ih =>
    cases event with
    | opening start => exact congrArg (Event.opening start :: ·) ih
    | closing name => exact congrArg (Event.closing name :: ·) ih
    | text characters =>
      rw [joinTexts, List.filter_cons_of_neg (by simp), ← ih]
      cases joinTexts events with
      | nil => rfl
      | cons first rest => cases first <;> rfl

namespace Content

inductive Spaced : Content → Content → Prop where
  | empty : Spaced empty empty
  | added {space : String} (hne : space ≠ "") (rest : Spaced content spaced) :
    Spaced content (text space spaced)
  | text {characters : String} (rest : Spaced content spaced) :
    Spaced (text characters content) (text characters spaced)
  | element (inner : Spaced content spaced) (rest : Spaced content' spaced') :
    Spaced (element start content content') (element start spaced spaced')

variable {content spaced : Content} {scope : Scope}

theorem Spaced.readable (h : content.Spaced spaced) (hcontent : content.Readable scope) :
    spaced.Readable scope := by
  induction h generalizing scope with
  | empty => trivial
  | added hne _ ih => exact ⟨hne, ih hcontent⟩
  | text _ ih => exact ⟨hcontent.1, ih hcontent.2⟩
  | element _ _ ihInner ihRest =>
    obtain ⟨hstart, hinner, hrest⟩ := hcontent
    exact ⟨hstart, ihInner hinner, ihRest hrest⟩

theorem Spaced.tags (h : content.Spaced spaced) :
    spaced.events.filter (·.isTag) = content.events.filter (·.isTag) := by
  induction h with
  | empty => rfl
  | added _ _ ih => simpa [events] using ih
  | text _ ih => simpa [events] using ih
  | element _ _ ihInner ihRest => simp [events, List.filter_cons, ihInner, ihRest]

theorem exists_added {space : List Char} (hspace : escape space = space) (h : content.Spaced spaced) :
    ∃ added, content.Spaced added
      ∧ added.events.flatMap Event.markup = space ++ spaced.events.flatMap Event.markup := by
  by_cases hempty : space = []
  · exact ⟨spaced, h, by simp [hempty]⟩
  · refine ⟨Content.text (String.ofList space) spaced, .added (by simpa using hempty) h, ?_⟩
    simp [events, Event.markup, hspace]

end Content

/-! ### Layouts -/

namespace Layout

def after (layout : Layout) (events : List Event) : Layout :=
  events.foldl (fun layout event => (layout.put event.toPiece).2) layout

theorem render_append (layout : Layout) (first second : List Event) :
    layout.render (first ++ second) = layout.render first ++ (layout.after first).render second := by
  induction first generalizing layout with
  | nil => rfl
  | cons event first ih =>
    rw [List.cons_append, render, render, ih, List.append_assoc]
    rfl

theorem escape_lead (layout : Layout) : escape layout.lead = layout.lead := by
  apply escape_of_plain
  intro c hc hmem
  unfold lead at hmem
  split at hmem
  · cases List.mem_cons.mp hmem with
    | inl heq => simp [heq] at hc
    | inr hspace => simp [List.eq_of_mem_replicate hspace] at hc
  · cases hmem

theorem exists_spaced (layout : Layout) (content : Content) {space : List Char}
    (hspace : escape space = space) :
    ∃ spaced, content.Spaced spaced
      ∧ spaced.events.flatMap Event.markup = layout.render content.events ++ space := by
  -- What comes before a closing tag is a text at the end of the content that the tag closes.
  induction content generalizing layout space with
  | empty => simpa [Content.events, render] using Content.exists_added hspace .empty
  | text characters rest ih =>
    obtain ⟨spaced, hspaced, hmarkup⟩ := ih (layout.put (.text characters)).2 hspace
    refine ⟨Content.text characters spaced, .text hspaced, ?_⟩
    simp [Content.events, render, Event.markup, Event.toPiece, put, hmarkup]
  | element start inner rest ihInner ihRest =>
    let opened := (layout.put (.opening start)).2
    let ended := opened.after inner.events
    let closing : Layout := { ended with level := ended.level - 1 }
    let closed := (ended.put (.closing start.name)).2
    obtain ⟨inside, hinside, hinner⟩ := ihInner opened (escape_lead closing)
    obtain ⟨behind, hbehind, hrest⟩ := ihRest closed hspace
    have helement : (Content.element start inner rest).Spaced (.element start inside behind) :=
      .element hinside hbehind
    obtain ⟨spaced, hspaced, hmarkup⟩ := Content.exists_added (escape_lead layout) helement
    refine ⟨spaced, hspaced, ?_⟩
    have hopening : (layout.put (.opening start)).1 = layout.lead ++ (Event.opening start).markup := by
      simp [put, Event.markup]
    have hclosing : (ended.put (.closing start.name)).1
        = closing.lead ++ (Event.closing start.name).markup := by
      simp [put, Event.markup, closing]
    have hrender : layout.render (Content.element start inner rest).events
        = (layout.put (.opening start)).1 ++ (opened.render inner.events
          ++ ((ended.put (.closing start.name)).1 ++ closed.render rest.events)) := by
      simp only [Content.events, List.cons_append, render]
      rw [render_append]
      rfl
    rw [hmarkup, hrender, hopening, hclosing]
    simp [Content.events, hinner, hrest]

end Layout

/-! ### Reading indented markup -/

theorem head?_escapeChar (c : Char) : (escapeChar c).head? = some c ∨ (escapeChar c).head? = some '&' := by
  unfold escapeChar
  (repeat' split) <;> simp_all

namespace Content

variable {content : Content} {scope : Scope}

theorem exists_unmarked (h : content.Readable scope) (hapart : content.TextsApart) :
    ∃ unmarked : Content, unmarked.Readable scope ∧ unmarked.TextsApart
      ∧ unmarked.events.filter (·.isTag) = content.events.filter (·.isTag)
      ∧ unmarked.events.flatMap Event.markup
        = Reader.withoutMark (content.events.flatMap Event.markup) := by
  cases content with
  | empty => exact ⟨empty, h, hapart, rfl, rfl⟩
  | element start inner rest =>
    refine ⟨element start inner rest, h, hapart, rfl, ?_⟩
    rw [Reader.withoutMark_of_head (by simp [events, Event.markup])]
  | text characters rest =>
    obtain ⟨hne, hrest⟩ := h
    obtain ⟨c, cs, hlist⟩ := List.exists_cons_of_ne_nil (mt String.toList_eq_nil_iff.mp hne)
    have hmarkup : (text characters rest).events.flatMap Event.markup
        = escapeChar c ++ (escape cs ++ rest.events.flatMap Event.markup) := by
      simp [events, Event.markup, escape, hlist]
    by_cases hmark : c = '\uFEFF'
    · have hshort : Reader.withoutMark ((text characters rest).events.flatMap Event.markup)
          = escape cs ++ rest.events.flatMap Event.markup := by
        rw [hmarkup, hmark]
        rfl
      by_cases hempty : cs = []
      · exact ⟨rest, hrest, hapart.2, by simp [events], by simp [hshort, hempty, escape]⟩
      · refine ⟨text (String.ofList cs) rest, ⟨by simpa using hempty, hrest⟩, hapart, ?_, ?_⟩
        · simp [events]
        · rw [hshort]
          simp [events, Event.markup]
    · refine ⟨text characters rest, ⟨hne, hrest⟩, hapart, rfl, ?_⟩
      rw [Reader.withoutMark_of_head]
      rw [hmarkup]
      cases head?_escapeChar c with
      | inl hhead => simp [List.head?_append, hhead, hmark]
      | inr hhead => simp [List.head?_append, hhead]

end Content

namespace Document

theorem exists_read_toXml {content : Content} (h : content.Readable .initial) (indented : Bool) :
    ∃ again, Document.read (toXml { events := content.events } indented) = .ok again
      ∧ again.tags = tags { events := content.events } := by
  have hnothing : escape [] = [] := rfl
  obtain ⟨spaced, hspaced, hrender⟩ := Layout.exists_spaced { indented } content hnothing
  have hjoined := (hspaced.readable h).joined
  obtain ⟨unmarked, hreadable, hapart, htags, hmarkup⟩ :=
    Content.exists_unmarked hjoined (Content.textsApart_joined spaced)
  refine ⟨{ events := unmarked.events }, ?_, ?_⟩
  · rw [Content.events_joined, markup_joinTexts, hrender, List.append_nil] at hmarkup
    unfold Document.read Reader.ofText toXml
    simp only [String.toList_ofList]
    rw [← hmarkup, Reader.events_markup hreadable hapart]
  · unfold tags
    rw [htags, Content.events_joined, filter_isTag_joinTexts, hspaced.tags]

end Document
end Xml
end XmlPipeline
