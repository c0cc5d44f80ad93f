import XmlPipeline.Proofs.Output.Serializing
import XmlPipeline.Proofs.Output.Spelling

/-!
This module contains the bodies that the final serializer writes with the method `html`. The main statement
says which elements get a closing tag, wherever they stand. As the serializer remembers only the last void
element that it has opened, a void element gets one after all if another void element stands inside of it.
-/

namespace XmlPipeline

open Xml

namespace Xml.Content

def eventsWith (isClosed : ElementStart → Content → Bool) : Content → List Event
  | empty => []
  | text characters rest => .text characters :: rest.eventsWith isClosed
  | element start inner rest =>
    .opening start :: inner.eventsWith isClosed
      ++ (if isClosed start inner then [.closing start.name] else [])
      ++ rest.eventsWith isClosed

/--
The markup of a content without the closing tags of the elements that do not pass a test.
-/
def rendered (isClosed : ElementStart → Content → Bool) (content : Content) : List Char :=
  (content.eventsWith isClosed).flatMap Event.markup

def hasVoid : Content → Bool
  | empty => false
  | text _ rest => rest.hasVoid
  | element start inner rest => start.name.isVoid || inner.hasVoid || rest.hasVoid

/--
No void element stands inside of another one.
-/
def VoidsApart : Content → Prop
  | empty => True
  | text _ rest => rest.VoidsApart
  | element start inner rest =>
    (start.name.isVoid = true → inner.hasVoid = false) ∧ inner.VoidsApart ∧ rest.VoidsApart

instance decidableVoidsApart : (content : Content) → Decidable content.VoidsApart
  | empty => .isTrue trivial
  | text _ rest => rest.decidableVoidsApart
  | element start inner rest =>
    have := inner.decidableVoidsApart
    have := rest.decidableVoidsApart
    inferInstanceAs <| Decidable <|
      (start.name.isVoid = true → inner.hasVoid = false) ∧ inner.VoidsApart ∧ rest.VoidsApart

/--
The elements that have a closing tag in HTML.
-/
def isClosed (start : ElementStart) (_ : Content) : Bool :=
  !start.name.isVoid

/--
The elements that get a closing tag.
-/
def isClosedAfter (start : ElementStart) (inner : Content) : Bool :=
  !start.name.isVoid || inner.hasVoid

theorem isClosedAfter_eq {start : ElementStart} {inner : Content}
    (h : start.name.isVoid = true → inner.hasVoid = false) :
    isClosedAfter start inner = isClosed start inner := by
  cases hvoid : start.name.isVoid with
  | false => simp [isClosed, isClosedAfter, hvoid]
  | true => simp [isClosed, isClosedAfter, hvoid, h hvoid]

theorem rendered_text (isClosed : ElementStart → Content → Bool) (characters : String) (rest : Content) :
    (text characters rest).rendered isClosed
      = (Event.text characters).markup ++ rest.rendered isClosed :=
  rfl

theorem rendered_element (isClosed : ElementStart → Content → Bool) (start : ElementStart)
    (inner rest : Content) :
    (element start inner rest).rendered isClosed
      = (Event.opening start).markup ++ inner.rendered isClosed
        ++ (if isClosed start inner then (Event.closing start.name).markup else [])
        ++ rest.rendered isClosed := by
  simp only [rendered, eventsWith]
  cases isClosed start inner <;> simp

theorem rendered_length_le (content : Content) :
    (content.rendered isClosed).length ≤ (content.rendered isClosedAfter).length := by
  induction content with
  | empty => exact Nat.le_refl _
  | text characters rest ih =>
    simp only [rendered_text, List.length_append]
    omega
  | element start inner rest ihInner ihRest =>
    have hclosing : (if isClosed start inner then (Event.closing start.name).markup else []).length
        ≤ (if isClosedAfter start inner then (Event.closing start.name).markup else []).length := by
      unfold isClosed isClosedAfter
      cases start.name.isVoid <;> simp
    simp only [rendered_element, List.length_append]
    omega

theorem voidsApart_of_length (content : Content)
    (h : (content.rendered isClosedAfter).length = (content.rendered isClosed).length) :
    content.VoidsApart := by
  -- Each closing tag makes the markup longer, so none can be missing in one place only.
  induction content with
  | empty => trivial
  | text characters rest ih =>
    simp only [rendered_text, List.length_append] at h
    exact ih (by omega)
  | element start inner rest ihInner ihRest =>
    have hinner := inner.rendered_length_le
    have hrest := rest.rendered_length_le
    simp only [rendered_element, List.length_append] at h
    by_cases hnested : start.name.isVoid = true ∧ inner.hasVoid = true
    · have hclosing : 0 < (Event.closing start.name).markup.length := by simp [Event.markup]
      simp only [isClosed, isClosedAfter, hnested, Bool.not_true, Bool.false_or, Bool.false_eq_true,
        ↓reduceIte, List.length_nil] at h
      omega
    · have hapart : start.name.isVoid = true → inner.hasVoid = false := by
        intro hvoid
        simpa [hvoid] using hnested
      rw [isClosedAfter_eq hapart] at h
      exact ⟨hapart, ihInner (by omega), ihRest (by omega)⟩

theorem rendered_eq_iff (content : Content) :
    content.rendered isClosedAfter = content.rendered isClosed ↔ content.VoidsApart := by
  constructor
  · intro h
    exact content.voidsApart_of_length (congrArg List.length h)
  · intro h
    induction content with
    | empty => rfl
    | text characters rest ih => rw [rendered_text, rendered_text, ih h]
    | element start inner rest ihInner ihRest =>
      obtain ⟨hapart, hinner, hrest⟩ := h
      rw [rendered_element, rendered_element, ihInner hinner, ihRest hrest, isClosedAfter_eq hapart]

end Xml.Content

namespace Xml.Event

def htmlPiece : Event → Piece
  | opening start => if start.name.isVoid then .voidTag start else .opening start
  | text content => .text content
  | closing name => .closing name

end Xml.Event

theorem OutputMethod.pieces_html (content : Content) (slot : Option QName) (more : List Event)
    (hslot : ∀ name ∈ slot, name.isVoid = true) :
    OutputMethod.html.pieces slot (content.events ++ more)
      = (content.eventsWith Content.isClosedAfter).map Event.htmlPiece
        ++ OutputMethod.html.pieces (if content.hasVoid then none else slot) more := by
  induction content generalizing slot more with
  | empty => rfl
  | text characters rest ih =>
    simp only [Content.events, List.cons_append, pieces, piece, Event.toPiece, Option.toList_some,
      List.nil_append]
    rw [ih slot more hslot]
    rfl
  | element start inner rest ihInner ihRest =>
    have hevents : (Content.element start inner rest).events ++ more
        = .opening start :: (inner.events ++ .closing start.name :: (rest.events ++ more)) := by
      simp [Content.events]
    rw [hevents, pieces]
    cases hvoid : start.name.isVoid with
    | true =>
      -- The slot holds this element now, unless an element inside of it takes the place.
      have hopened : ∀ name ∈ some start.name, name.isVoid = true := by simpa using hvoid
      simp only [piece, hvoid, ↓reduceIte]
      rw [ihInner _ _ hopened, pieces]
      cases hhas : inner.hasVoid with
      | true =>
        simp only [piece, ↓reduceIte, Option.none_beq_some, Bool.false_eq_true]
        rw [ihRest none more (by simp)]
        simp [Content.eventsWith, Content.isClosedAfter, Content.hasVoid, Event.htmlPiece, hvoid, hhas]
      | false =>
        simp only [piece, Bool.false_eq_true, ↓reduceIte, BEq.rfl]
        rw [ihRest none more (by simp)]
        simp [Content.eventsWith, Content.isClosedAfter, Content.hasVoid, Event.htmlPiece, hvoid, hhas]
    | false =>
      have hkept : ∀ name ∈ (if inner.hasVoid then none else slot), name.isVoid = true := by
        cases inner.hasVoid with
        | true => simp
        | false => exact hslot
      have hother : ((if inner.hasVoid then none else slot) == some start.name) = false := by
        rw [beq_eq_false_iff_ne]
        intro hsame
        rw [hsame] at hkept
        simp [hvoid] at hkept
      simp only [piece, hvoid, Bool.false_eq_true, ↓reduceIte]
      rw [ihInner slot _ hslot, pieces]
      simp only [piece, hother, Bool.false_eq_true, ↓reduceIte]
      rw [ihRest _ more hkept]
      cases hhas : inner.hasVoid <;> cases hrest : rest.hasVoid <;>
        simp [Content.eventsWith, Content.isClosedAfter, Content.hasVoid, Event.htmlPiece, hvoid, hhas,
          hrest]

theorem Xml.Layout.texts_htmlPiece {layout : Layout} (h : layout.indented = false)
    (events : List Event) :
    (layout.texts (events.map Event.htmlPiece)).flatten = events.flatMap Event.markup := by
  induction events generalizing layout with
  | nil => rfl
  | cons event events ih =>
    have hlead : ∀ level, lead { layout with level } = [] := by simp [lead, h]
    have hput : (layout.put event.htmlPiece).1 = event.markup := by
      cases event with
      | opening start =>
        have hlayout : layout.lead = [] := hlead layout.level
        cases hvoid : start.name.isVoid <;> simp [put, Event.htmlPiece, Event.markup, hvoid, hlayout]
      | text content => rfl
      | closing name => simp [put, Event.htmlPiece, Event.markup, hlead]
    rw [List.map_cons, texts, List.flatten_cons, List.flatMap_cons, hput,
      ih ((put_indented layout _).trans h)]

theorem OutputProperties.texts_html {properties : OutputProperties} (hmethod : properties.method = .html)
    (hplain : properties.isYes "indent" = false) (content : Content) :
    (properties.texts content.events).flatten = content.rendered Content.isClosedAfter := by
  have hindented : properties.isIndented = false := by simp [OutputProperties.isIndented, hplain]
  have hpieces : properties.pieces content.events
      = (content.eventsWith Content.isClosedAfter).map Event.htmlPiece := by
    have hall := OutputMethod.pieces_html content none [] (by simp)
    simp only [List.append_nil, OutputMethod.pieces] at hall
    unfold OutputProperties.pieces
    rw [← hall, hmethod]
    cases hevents : content.events with
    | nil => rfl
    | cons event events => simp [OutputProperties.isDeclared, hmethod]
  unfold OutputProperties.texts Content.rendered
  rw [hpieces]
  exact Layout.texts_htmlPiece hindented _

namespace FinalSerializer

variable {σ : Type} [ByteWriter σ] {properties : OutputProperties}

/--
An element gets a closing tag if it is no void element, and also if a void element stands inside of it.
The body is the one of HTML exactly if void elements stand apart.
-/
theorem serialize_html (reliable : Reliable σ) {out : σ} (hout : reliable.healthy out)
    (hmethod : properties.method = .html) (hplain : properties.isYes "indent" = false)
    (content : Content) :
    let run := (create properties out).serialize content.events
    run.1 = .ok ()
      ∧ reliable.received run.2.out = reliable.received out
        ++ properties.charset.bytesOf (properties.charset.spell (content.rendered Content.isClosedAfter))
      ∧ (content.rendered Content.isClosedAfter = content.rendered Content.isClosed
        ↔ content.VoidsApart) := by
  have hreferences : (properties.method != .text) = true := by simp [hmethod]
  obtain ⟨hresult, hreceived⟩ := reliable.serialize hout properties content.events
  simp only [hreferences, Charset.encodeEach_spelled, OutputProperties.texts_html hmethod hplain]
    at hresult hreceived
  exact ⟨hresult.mpr trivial, hreceived, content.rendered_eq_iff⟩

def htmlProperties : OutputProperties :=
  .ofList [("method", "html")]

def steppedSink : ByteSink where
  chunk := some 3

def pageContent : Content :=
  -- Void elements next to each other, with text inside, and with a name that counts in HTML only.
  .element { name := { localName := "p" } }
    (.element { name := { localName := "BR" } } .empty
      (.element { name := { localName := "hr" } } (.text "<" .empty)
        (.element { name := { localName := "br", uri := some "urn:a" } }
          (.element { name := { localName := "img", pfx := some "h", uri := some xhtmlNamespace } }
            .empty .empty)
          .empty)))
    .empty

theorem serialize_html_pageContent :
    let run := (create htmlProperties steppedSink).serialize pageContent.events
    pageContent.VoidsApart ∧ run.1 = .ok ()
      ∧ run.2.out.received.toList
        = Utf8.encode "<p><BR><hr>&lt;<br><h:img></br></p>".toList := by
  have hout : ByteSink.reliable.healthy steppedSink := ⟨rfl, by decide, rfl⟩
  have hmethod : htmlProperties.method = .html := by decide +kernel
  have hplain : htmlProperties.isYes "indent" = false := by decide +kernel
  obtain ⟨hresult, hreceived, hapart⟩ :=
    serialize_html ByteSink.reliable hout hmethod hplain pageContent
  have hvoids : pageContent.VoidsApart := by decide +kernel
  refine ⟨hvoids, hresult, hreceived.trans ?_⟩
  rw [hapart.mpr hvoids]
  decide +kernel

def nestedVoids : Content :=
  .element { name := { localName := "br" } }
    (.element { name := { localName := "img" } } .empty .empty)
    .empty

theorem serialize_nestedVoids :
    let run := (create htmlProperties ({} : ByteSink)).serialize nestedVoids.events
    run.1.toOption = some ()
      ∧ run.2.out.received.toList = Utf8.encode "<br><img></br>".toList
      ∧ nestedVoids.rendered Content.isClosed = "<br><img>".toList
      ∧ run.2.out.received.toList ≠ Utf8.encode (nestedVoids.rendered Content.isClosed) := by
  intro run
  refine ⟨?_, ?_, ?_, ?_⟩ <;> decide +kernel

end FinalSerializer
end XmlPipeline
