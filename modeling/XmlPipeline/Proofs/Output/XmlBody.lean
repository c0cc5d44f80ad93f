import XmlPipeline.Proofs.Output.Spelling

/-!
This module contains the bodies that the final serializer writes with the method `xml`. The main statement
is that a document is read back from its body in any character set that holds its names, whatever the
characters of its texts and values are.
-/

namespace XmlPipeline

open Xml

/-! ### The declaration at the start -/

namespace OutputProperties

def prolog (properties : OutputProperties) : List Char :=
  if properties.isDeclared then
    "<?xml version=\"1.0\"".toList ++ declarationPart "encoding" (some properties.charset.name)
      ++ declarationPart "standalone" properties.standalone? ++ "?>".toList
  else
    []

theorem standalone?_cases (properties : OutputProperties) :
    properties.standalone? = none ∨ properties.standalone? = some "yes"
      ∨ properties.standalone? = some "no" := by
  unfold standalone?
  cases properties.get? "standalone" with
  | none => exact .inl rfl
  | some value =>
    by_cases hyes : value = "yes"
    · subst hyes
      exact .inr (.inl rfl)
    · by_cases hno : value = "no"
      · subst hno
        exact .inr (.inr rfl)
      · left
        simp [Option.filter_some, hyes, hno]

theorem isAscii_prolog (properties : OutputProperties) : Charset.isAscii properties.prolog = true := by
  unfold prolog
  split
  · rcases standalone?_cases properties with h | h | h <;> simp only [h] <;>
      cases properties.charset <;> decide
  · rfl

theorem prolog_cases (properties : OutputProperties) :
    properties.prolog = []
      ∨ ∃ inside, properties.prolog = '<' :: '?' :: 'x' :: inside ++ ['?', '>'] ∧ '?' ∉ inside := by
  unfold prolog
  split
  · right
    refine ⟨"ml version=\"1.0\"".toList ++ declarationPart "encoding" (some properties.charset.name)
      ++ declarationPart "standalone" properties.standalone?, ?_, ?_⟩
    · simp
    · rcases standalone?_cases properties with h | h | h <;> simp only [h] <;>
        cases properties.charset <;> decide
  · exact .inl rfl

end OutputProperties

theorem Text.cutAround?_append {cs : List Char} (h : '?' ∉ cs) (tail : List Char) :
    Text.cutAround? ['?', '>'] (cs ++ '?' :: '>' :: tail) = some (cs, tail) := by
  induction cs with
  | nil => rfl
  | cons c cs ih =>
    simp only [List.mem_cons, not_or] at h
    rw [List.cons_append, Text.cutAround?, ih h.2]
    simp [Text.afterMarker?, h.1]

theorem Xml.Markup.scanTag_instruction {inside : List Char} (h : '?' ∉ inside) (tail : List Char) :
    Markup.scanTag ('?' :: 'x' :: (inside ++ '?' :: '>' :: tail)) = .ok (.ignored, tail) := by
  have hx : '?' ∉ 'x' :: inside := by simpa using h
  have hcut := Text.cutAround?_append hx tail
  rw [List.cons_append] at hcut
  simp [Markup.scanTag, Markup.scanInstruction, hcut]

namespace Xml.Reader

variable {reader : Reader} {tail : List Char}

theorem events_prolog (properties : OutputProperties) (hpending : reader.pending = false)
    (hrest : reader.rest = properties.prolog ++ tail) :
    reader.events = ({ reader with rest := tail } : Reader).events := by
  rcases properties.prolog_cases with hnone | ⟨inside, hprolog, hinside⟩
  · have hsame : ({ reader with rest := tail } : Reader) = reader := by
      cases reader
      simp only [hnone, List.nil_append] at hrest
      rw [hrest]
    rw [hsame]
  · apply events_of_skip
    have hscan := Markup.scanTag_instruction hinside tail
    have hmarkup : reader.rest = '<' :: '?' :: 'x' :: (inside ++ '?' :: '>' :: tail) := by
      rw [hrest, hprolog]
      simp
    unfold step
    rw [hpending, hmarkup]
    simp only [Markup.scan, Bool.false_eq_true, ↓reduceIte]
    rw [hscan]
    simp only [take, hpending]

end Xml.Reader

namespace Xml.Document

variable {document : Document} {charset : Charset}

theorem read_spelled (properties : OutputProperties) (h : document.WellFormed)
    (hheld : ∀ event ∈ document.events, event.Held charset) :
    Document.read (String.ofList
        (properties.prolog ++ document.events.flatMap (Event.spelled charset.spelling)))
      = .ok document := by
  obtain ⟨events⟩ := document
  obtain ⟨start, inner, hevents, hcontent⟩ := h
  simp only at hevents hheld
  subst hevents
  let content := Content.element start inner .empty
  have hmark : Reader.withoutMark
        (properties.prolog ++ content.events.flatMap (Event.spelled charset.spelling))
      = properties.prolog ++ content.events.flatMap (Event.spelled charset.spelling) := by
    apply Reader.withoutMark_of_head
    rcases properties.prolog_cases with hprolog | ⟨inside, hprolog, -⟩ <;>
      simp [hprolog, content, Content.events, Event.spelled]
  have hreadable : content.Readable .initial := hcontent.readable (by simp)
  have hkept : ∀ start, .opening start ∈ content.events → start.Kept charset.spelling :=
    fun start hstart => Charset.kept_of_held (hheld _ hstart) (hreadable.declarable start hstart)
  have hreader : ∀ size, Reader.events {
        size
        rest := properties.prolog ++ content.events.flatMap (Event.spelled charset.spelling) }
      = (content.events, none) := by
    intro size
    rw [Reader.events_prolog properties rfl rfl,
      Reader.events_spelled charset.spelling content _ [] hreadable hcontent.textsApart hkept rfl rfl
        (by simp [Reader.EndsText]) (List.append_nil _).symm,
      Reader.events_of_done rfl]
    simp
  unfold Document.read Reader.ofText
  simp only [String.toList_ofList]
  rw [hmark, hreader]

end Xml.Document

/-! ### The body of a document -/

namespace FinalSerializer

variable {σ : Type} [ByteWriter σ]

def owed (serializer : FinalSerializer σ) : List Char :=
  if serializer.isStarted then [] else serializer.properties.prolog

structure Wrote (reliable : Reliable σ) (properties : OutputProperties) (before : List UInt8)
    (text : List Char) (serializer : FinalSerializer σ) : Prop where
  same : serializer.properties = properties
  plain : serializer.writer.layout.indented = false
  encoder : ∃ written, written ++ serializer.owed = text
    ∧ EncodingWriter.Passed reliable properties.charset before (Utf8.encode written) serializer.writer.out

variable {reliable : Reliable σ} {before : List UInt8} {text : List Char}
  {serializer : FinalSerializer σ} {properties : OutputProperties}

theorem Wrote.put (h : Wrote reliable properties before text serializer)
    (hstarted : serializer.isStarted = true) (piece : Piece) :
    ∃ after, serializer.put piece = (.ok (), after) ∧ after.isStarted = true
      ∧ Wrote reliable properties before (text ++ (serializer.writer.layout.put piece).1) after := by
  obtain ⟨written, htext, hencoder⟩ := h.encoder
  obtain rfl : written = text := by simpa [owed, hstarted] using htext
  obtain ⟨out, hwrite, hout⟩ := hencoder.writeText (serializer.writer.layout.put piece).1
  let after : FinalSerializer σ :=
    { serializer with writer := { layout := (serializer.writer.layout.put piece).2, out } }
  refine ⟨after, ?_, hstarted, h.same, ?_, _, ?_, hout⟩
  · unfold FinalSerializer.put Writer.put
    simp only
    rw [hwrite]
    rfl
  · exact (Xml.Layout.put_indented _ _).trans h.plain
  · simp [owed, after, hstarted]

theorem Wrote.start (h : Wrote reliable properties before text serializer) :
    ∃ started, serializer.start = (.ok (), started) ∧ started.isStarted = true
      ∧ Wrote reliable properties before text started := by
  cases hstarted : serializer.isStarted with
  | true => exact ⟨serializer, by simp [FinalSerializer.start, hstarted], hstarted, h⟩
  | false =>
    obtain ⟨written, htext, hencoder⟩ := h.encoder
    let started : FinalSerializer σ := { serializer with isStarted := true }
    have hwrote : Wrote reliable properties before written started :=
      ⟨h.same, h.plain, written, by simp [owed, started], hencoder⟩
    have howed : serializer.owed = serializer.properties.prolog := by simp [owed, hstarted]
    rw [howed] at htext
    cases hdeclared : serializer.properties.isDeclared with
    | false =>
      have hsame : text = written := by simpa [OutputProperties.prolog, hdeclared] using htext.symm
      exact ⟨started, by simp [FinalSerializer.start, hstarted, hdeclared, started], rfl, hsame ▸ hwrote⟩
    | true =>
      let declaration : Piece :=
        .declaration serializer.properties.charset.name serializer.properties.standalone?
      have hchars : (started.writer.layout.put declaration).1 = serializer.properties.prolog := by
        simp [started, declaration, Layout.put, Layout.lead, h.plain, OutputProperties.prolog, hdeclared]
      obtain ⟨after, hput, hafter, hmore⟩ := hwrote.put rfl declaration
      rw [hchars, htext] at hmore
      refine ⟨after, ?_, hafter, hmore⟩
      rw [← hput]
      simp [FinalSerializer.start, hstarted, hdeclared, started, declaration]

theorem Wrote.write (h : Wrote reliable properties before text serializer)
    (hmethod : properties.method = .xml) (event : Event) :
    ∃ after, serializer.write event = (.ok (), after) ∧ after.isStarted = true
      ∧ Wrote reliable properties before (text ++ event.markup) after := by
  obtain ⟨started, hstart, hstarted, hwrote⟩ := h.start
  have hchars : (started.writer.layout.put event.toPiece).1 = event.markup := by
    have hrender := Layout.render_plain hwrote.plain [event]
    simpa [Layout.render] using hrender
  obtain ⟨after, hput, hafter, hmore⟩ := hwrote.put hstarted event.toPiece
  rw [hchars] at hmore
  refine ⟨after, ?_, hafter, hmore⟩
  unfold FinalSerializer.write
  rw [hstart]
  simp only
  rw [hwrote.same, hmethod]
  exact hput

theorem Wrote.given (h : Wrote reliable properties before text serializer)
    (hmethod : properties.method = .xml) (events : List Event) :
    Wrote reliable properties before (text ++ events.flatMap Event.markup) (serializer.given events) := by
  induction events generalizing text serializer with
  | nil =>
    rw [List.flatMap_nil, List.append_nil]
    exact h
  | cons event events ih =>
    obtain ⟨after, hwrite, -, hafter⟩ := h.write hmethod event
    have hrest := ih hafter
    rw [List.flatMap_cons, ← List.append_assoc]
    unfold FinalSerializer.given at hrest ⊢
    rw [List.foldl_cons, hwrite]
    exact hrest

theorem Wrote.finish (h : Wrote reliable properties before text serializer)
    (hstarted : serializer.isStarted = true) :
    ∃ finished, serializer.finish = (.ok (), finished)
      ∧ reliable.received finished.out
        = before ++ properties.charset.bytesOf (properties.charset.spell text) := by
  obtain ⟨written, htext, hencoder⟩ := h.encoder
  obtain rfl : written = text := by simpa [owed, hstarted] using htext
  obtain ⟨out, hflush, hreceived⟩ := hencoder.flush
  refine ⟨{ serializer with writer := { serializer.writer with out } }, ?_, hreceived⟩
  unfold FinalSerializer.finish
  rw [hflush]
  rfl

theorem passed_create {out : σ} (hout : reliable.healthy out) (hmethod : properties.method = .xml) :
    EncodingWriter.Passed reliable properties.charset (reliable.received out) []
      (create properties out).writer.out := by
  apply EncodingWriter.passed_nil
  · simp [create]
  · simp [create, hmethod]
  · simp [create]
  · simp [create]
  · exact hout

theorem wrote_create {out : σ} (hout : reliable.healthy out) (hmethod : properties.method = .xml)
    (hplain : properties.isYes "indent" = false) :
    Wrote reliable properties (reliable.received out) properties.prolog (create properties out) := by
  refine ⟨rfl, ?_, [], ?_, passed_create hout hmethod⟩
  · simp [create, OutputProperties.isIndented, hplain]
  · simp [owed, create]

/--
A document is read back from its body. The body would be the same if the writer below cut its text into
other pieces.
-/
theorem read_serialized (reliable : Reliable σ) {out : σ} {document : Document} {charset : Charset}
    (hout : reliable.healthy out) (hmethod : properties.method = .xml)
    (hplain : properties.isYes "indent" = false)
    (hcharset : Charset.ofLabel? properties.encodingLabel = some charset)
    (hdocument : document.WellFormed) (hheld : ∀ event ∈ document.events, event.Held charset) :
    (∀ first event rest, document.events = first ++ event :: rest →
        (create properties out).answer first event = .ok ())
      ∧ ∃ finished body text, ((create properties out).given document.events).finish = (.ok (), finished)
        ∧ reliable.received finished.out = reliable.received out ++ body
        ∧ charset.decode? body = some text
        ∧ Document.read text = .ok document
        ∧ ∀ pieces : List (List UInt8),
            pieces.flatten = Utf8.encode (properties.prolog ++ (document.toXml false).toList) →
            ∃ written after, (create properties out).writer.out.writeEach pieces = (.ok (), written)
              ∧ ByteWriter.flush written = (.ok (), after)
              ∧ reliable.received after.inner = reliable.received out ++ body := by
  obtain rfl : properties.charset = charset := by simp [OutputProperties.charset, hcharset]
  have hcreated := wrote_create hout hmethod hplain
  constructor
  · intro first event rest _
    obtain ⟨after, hwrite, -, -⟩ := (hcreated.given hmethod first).write hmethod event
    unfold answer
    rw [hwrite]
  · obtain ⟨start, inner, hevents, -⟩ := id hdocument
    -- The document has events, so nothing is owed at the end.
    have hlast : document.events = (.opening start :: inner.events) ++ [.closing start.name] := by
      simpa [Content.events] using hevents
    obtain ⟨after, hwrite, hstarted, -⟩ :=
      (hcreated.given hmethod (.opening start :: inner.events)).write hmethod (.closing start.name)
    have hgiven : (create properties out).given document.events = after := by
      rw [hlast]
      unfold given at hwrite ⊢
      rw [List.foldl_append, List.foldl_cons, List.foldl_nil, hwrite]
    have hwrote := hcreated.given hmethod document.events
    rw [hgiven] at hwrote ⊢
    obtain ⟨finished, hfinish, hreceived⟩ := hwrote.finish hstarted
    have hspell : properties.charset.spell (properties.prolog ++ document.events.flatMap Event.markup)
        = properties.prolog ++ document.events.flatMap (Event.spelled properties.charset.spelling) := by
      rw [Charset.spell_append, Charset.spell_flatMap_markup hheld,
        Charset.spell_of_holds (Charset.holds_of_isAscii properties.isAscii_prolog)]
    refine ⟨finished, _, _, hfinish, hreceived, Charset.decode?_bytesOf (Charset.holds_spell _ _), ?_, ?_⟩
    · rw [hspell]
      exact Document.read_spelled properties hdocument hheld
    · intro pieces hpieces
      rw [Document.toXml_eq, String.toList_ofList] at hpieces
      exact (passed_create hout hmethod).writeEach_encode hpieces

def sampleContent : Content :=
  -- Texts and values have characters of one to four bytes, markup, and what looks like a reference.
  .element
    { name := { localName := "list", uri := some "urn:a" }
      attributes := [{ name := { localName := "title" }, value := "<\"é&#233;'>" }]
      namespaces := [{ pfx := none, uri := "urn:a" }, { pfx := some "p", uri := "urn:b" }] }
    (.text "€😀]]>&amp;"
      (.element
        { name := { localName := "entry", pfx := some "p", uri := some "urn:b" }
          attributes := [
            { name := { localName := "key", pfx := some "p", uri := some "urn:b" }, value := "\x7f" }] }
        (.text "\u0080" .empty) .empty))
    .empty

def sampleProperties : OutputProperties :=
  .ofList [("encoding", " US-ASCII"), ("method", "xml"), ("standalone", "yes")]

def sampleSink : ByteSink where
  chunk := some 2

theorem read_serialized_sampleContent :
    ∃ finished body text,
      ((create sampleProperties sampleSink).given sampleContent.events).finish = (.ok (), finished)
        ∧ finished.out.received.toList = body
        ∧ Charset.ascii.decode? body = some text
        ∧ Document.read text = .ok { events := sampleContent.events } := by
  have hout : ByteSink.reliable.healthy sampleSink := ⟨rfl, by decide, rfl⟩
  have hmethod : sampleProperties.method = .xml := by decide +kernel
  have hplain : sampleProperties.isYes "indent" = false := by decide +kernel
  have hcharset : Charset.ofLabel? sampleProperties.encodingLabel = some .ascii := by decide +kernel
  have hwellFormed : ({ events := sampleContent.events } : Document).WellFormed :=
    ⟨_, _, rfl, by decide⟩
  have hheld : ∀ event ∈ sampleContent.events, event.Held .ascii := by decide +kernel
  obtain ⟨-, finished, body, text, hfinish, hreceived, htext, hread, -⟩ :=
    read_serialized ByteSink.reliable hout hmethod hplain hcharset hwellFormed hheld
  exact ⟨finished, body, text, hfinish, hreceived, htext, hread⟩

end FinalSerializer
end XmlPipeline
