import XmlPipeline.Proofs.Pipeline.Merging
import XmlPipeline.Proofs.Xml.Rewriting

/-!
This module contains the changes to a definition's text that leave the pipeline as it is: comments and
processing instructions, other ways to write character data, and another order of attributes. The last of them
needs names without quotation marks, for the reader goes by these marks alone to find the end of a tag.
-/

namespace XmlPipeline

open Xml

namespace Xml

namespace Reader

variable {place : Reader} {before : List Char}

/--
The characters can be read up to their end, which leads to this place. In a longer text the end is a place in
the content then, for it is not inside of markup or of a reference.
-/
structure ReadsTo (before : List Char) (place : Reader) : Prop where
  reaches : (ofChars before).Reaches place
  rest : place.rest = []
  pending : place.pending = false

def forward : Nat → Reader → Reader
  | 0, reader => reader
  | steps + 1, reader =>
    match reader.step.reader? with
    | some next => forward steps next
    | none => reader

theorem reaches_forward (steps : Nat) (reader : Reader) : reader.Reaches (reader.forward steps) := by
  induction steps generalizing reader with
  | zero => exact .refl
  | succ steps ih =>
    unfold forward
    split
    · next next hstep => exact .head hstep (ih next)
    · exact .refl

theorem ReadsTo.of_forward {steps : Nat} (h : ((ofChars before).forward steps).rest = []
    ∧ ((ofChars before).forward steps).pending = false) :
    ReadsTo before ((ofChars before).forward steps) :=
  ⟨reaches_forward steps _, h.1, h.2⟩

def openNames (reader : Reader) : List QName :=
  (List.zipWith (fun scope tag => (scope.elementName tag).toOption) reader.scopes reader.tags).reduceOption

theorem Tracks.openNames_eq {names : List QName} (h : place.Tracks names) : place.openNames = names := by
  obtain ⟨htags, hscopes, -, -⟩ := h
  unfold openNames
  rw [htags]
  clear htags
  generalize place.scopes = scopes at hscopes ⊢
  induction hscopes with
  | nil => rfl
  | cons hname _ ih =>
    rw [List.map_cons, List.zipWith_cons_cons, hname]
    exact congrArg _ ih

def IsOutside (place : Reader) : Prop :=
  ∀ name ∈ place.openNames, name.is responseNamespace "response" = false

instance (place : Reader) : Decidable place.IsOutside :=
  inferInstanceAs (Decidable (∀ name ∈ place.openNames, name.is responseNamespace "response" = false))

def Step.opened? : Step → Option (QName × List Char)
  | .event (.opening start) next => some (start.name, next.rest)
  | _ => none

theorem Step.exists_of_opened? {step : Step} {name : QName} {after : List Char}
    (h : step.opened? = some (name, after)) :
    ∃ start next, step = .event (.opening start) next ∧ start.name = name ∧ next.rest = after := by
  unfold opened? at h
  split at h
  · next start next =>
    obtain ⟨hname, hafter⟩ := Prod.mk.inj (Option.some.inj h)
    exact ⟨start, next, rfl, hname, hafter⟩
  · cases h

theorem tracks_ofChars (cs : List Char) : (ofChars cs).Tracks [] :=
  ⟨rfl, .nil, rfl, by simp [ofChars]⟩

theorem ReadsTo.gathered (h : ReadsTo before place) :
    ∃ events names, Nested [] events names ∧ place.Tracks names
      ∧ ∀ tail, ∃ size, (ofChars (before ++ tail)).gathered
        = (place.within size tail).gathered.map fun more => events.foldr Event.onto more := by
  obtain ⟨events, names, hnested, hnames, hgathered⟩ := gathered_reaches h.reaches (tracks_ofChars before)
  refine ⟨events, names, hnested, hnames, ?_⟩
  intro tail
  refine ⟨Utf8.size (before ++ tail), ?_⟩
  have htail : (ofChars (before ++ tail)).gathered = _ := hgathered (Utf8.size (before ++ tail)) tail
  rwa [h.rest, List.nil_append] at htail

end Reader

/-! ### Edits -/

/--
A change at one place of a text. The names in a tag whose attributes change places have to be allowed.
-/
inductive Edit (allowed : List Char → Prop) : List Char → List Char → Prop where
  | insert {before after inserted : List Char} {place : Reader} (hplace : Reader.ReadsTo before place)
    (hinserted : Skipped inserted) : Edit allowed (before ++ after) (before ++ (inserted ++ after))
  | rewrite {before after written written' characters : List Char} {place : Reader}
    (hplace : Reader.ReadsTo before place) (hwritten : Writes written characters)
    (hwritten' : Writes written' characters) :
    Edit allowed (before ++ (written ++ after)) (before ++ (written' ++ after))
  | permute {before after : List Char} {tag tag' : WrittenTag} {place : Reader} {name : QName}
    (hplace : Reader.ReadsTo before place) (houtside : place.IsOutside)
    (hopens : { place with rest := '<' :: (tag.chars ++ after) }.step.opened? = some (name, after))
    (hin : name.isIn pipelineNamespace = true)
    (htag : tag.WellFormed) (htag' : tag'.WellFormed) (hpermutes : tag.Permutes tag')
    (hnames : ∀ name ∈ tag.names, allowed name) :
    Edit allowed (before ++ '<' :: (tag.chars ++ after)) (before ++ '<' :: (tag'.chars ++ after))

def Edited (allowed : List Char → Prop) : List Char → List Char → Prop :=
  Relation.ReflTransGen (Edit allowed)

/--
There is no tag of the vocabulary outside of responses whose attributes cannot change places.
-/
theorem Edit.exists_permute {before cs : List Char} {place next : Reader} {start : ElementStart}
    (hplace : Reader.ReadsTo before place) (houtside : place.IsOutside)
    (hstep : { place with rest := '<' :: cs }.step = .event (.opening start) next)
    (hin : start.name.isIn pipelineNamespace = true) :
    ∃ tag : WrittenTag, cs = tag.chars ++ next.rest
      ∧ ∀ (allowed : List Char → Prop) (tag' : WrittenTag), tag'.WellFormed → tag.Permutes tag' →
        (∀ name ∈ tag.names, allowed name) →
        Edit allowed (before ++ '<' :: cs) (before ++ '<' :: (tag'.chars ++ next.rest)) := by
  have hpending : { place with rest := '<' :: cs }.pending = false := hplace.pending
  obtain ⟨tag, htag, -, hcs⟩ := Reader.exists_writtenTag hpending rfl hstep
  refine ⟨tag, hcs, ?_⟩
  intro allowed tag' htag' hpermutes hnames
  rw [hcs] at hstep ⊢
  have hopens : { place with rest := '<' :: (tag.chars ++ next.rest) }.step.opened?
      = some (start.name, next.rest) := by
    rw [hstep]
    rfl
  exact .permute hplace houtside hopens hin htag htag' hpermutes hnames

end Xml

namespace Pipeline

def Defines (source : Option String) (cs : List Char) (pipeline : Pipeline) : Prop :=
  ∃ events, (Reader.ofChars cs).gathered = some events
    ∧ ({ source } : Definition).conclude events none = .ok pipeline

variable {source : Option String} {cs cs' : List Char} {pipeline : Pipeline}

theorem read_eq_ok_iff {text : String} :
    read source text = .ok pipeline ↔ Defines source (Reader.withoutMark text.toList) pipeline := by
  show ({ source } : Definition).conclude (Reader.ofText text).events.1 (Reader.ofText text).events.2
    = .ok pipeline ↔ _
  have hreader : Reader.ofChars (Reader.withoutMark text.toList) = Reader.ofText text := rfl
  unfold Defines Reader.gathered
  rw [hreader]
  generalize (Reader.ofText text).events = read
  obtain ⟨events, failure⟩ := read
  cases failure with
  | none =>
    constructor
    · intro h
      exact ⟨_, rfl, (Definition.conclude_merged _ events).trans h⟩
    · rintro ⟨merged, hmerged, h⟩
      obtain rfl := Option.some.inj hmerged
      exact (Definition.conclude_merged _ events).symm.trans h
  | some failure =>
    constructor
    · intro h
      unfold Definition.conclude at h
      obtain ⟨d, -, hfailure⟩ := exists_of_bind_ok h
      cases hfailure
    · rintro ⟨merged, hmerged, -⟩
      cases hmerged

theorem Defines.of_gathered {before tail tail' : List Char} {place : Reader}
    (h : Defines source (before ++ tail) pipeline) (hplace : Reader.ReadsTo before place)
    (htail : ∀ size size', (place.within size tail).gathered = (place.within size' tail').gathered) :
    Defines source (before ++ tail') pipeline := by
  obtain ⟨events, -, -, -, hgathered⟩ := hplace.gathered
  obtain ⟨size, hsize⟩ := hgathered tail
  obtain ⟨size', hsize'⟩ := hgathered tail'
  obtain ⟨read, hread, hconclude⟩ := h
  refine ⟨read, ?_, hconclude⟩
  rw [hsize', ← htail size size', ← hsize, hread]

theorem Defines.permute {before after : List Char} {tag tag' : WrittenTag} {place : Reader} {name : QName}
    (h : Defines source (before ++ '<' :: (tag.chars ++ after)) pipeline)
    (hplace : Reader.ReadsTo before place) (houtside : place.IsOutside)
    (hopens : { place with rest := '<' :: (tag.chars ++ after) }.step.opened? = some (name, after))
    (hin : name.isIn pipelineNamespace = true)
    (htag : tag.WellFormed) (htag' : tag'.WellFormed) (hpermutes : tag.Permutes tag')
    (hnames : ∀ name ∈ tag.names, Unquoted name) :
    Defines source (before ++ '<' :: (tag'.chars ++ after)) pipeline := by
  obtain ⟨start, next, hstep, rfl, hafter⟩ := Reader.Step.exists_of_opened? hopens
  have hopens : (place.within place.size ('<' :: (tag.chars ++ after))).step
    = .event (.opening start) next := hstep
  obtain ⟨events, names, hnested, htracks, hgathered⟩ := hplace.gathered
  obtain ⟨first, hfirst⟩ := hgathered ('<' :: (tag.chars ++ after))
  obtain ⟨second, hsecond⟩ := hgathered ('<' :: (tag'.chars ++ after))
  obtain ⟨start', hrearranged, hstep'⟩ :=
    Reader.step_permuted hplace.pending htag htag' hpermutes hnames hopens hafter second
  have hstep : (place.within first ('<' :: (tag.chars ++ after))).gathered
      = (next.within second after).gathered.map (Event.opening start).onto := by
    rw [Reader.gathered_within place first place.size, Reader.gathered_of_event hopens, ← hafter,
      Reader.gathered_within_size]
  rw [Reader.gathered_of_event hstep'] at hsecond
  rw [hstep] at hfirst
  obtain ⟨read, hread, hconclude⟩ := h
  rw [hfirst] at hread
  cases hmore : (next.within second after).gathered with
  | none =>
    rw [hmore] at hread
    cases hread
  | some more =>
    rw [hmore] at hread hsecond
    obtain rfl := Option.some.inj hread
    refine ⟨_, hsecond, ?_⟩
    rw [Definition.conclude_foldr_onto, Definition.conclude_append] at hconclude ⊢
    obtain ⟨d, hd, hrest⟩ := exists_of_bind_ok hconclude
    have hcapture := Definition.capture_eq_none_of_nested hnested (htracks.openNames_eq ▸ houtside) hd
    have hapart := Reader.apart_of_step
      (Reader.pending_within hplace.pending place.size ('<' :: (tag.chars ++ after))) hopens
    have happly := Definition.apply_rearranged hrearranged hapart hin hcapture
    rw [hd]
    simp only [Except.bind]
    rw [Definition.conclude_onto, Definition.conclude_cons] at hrest ⊢
    rw [happly]
    exact hrest

theorem Defines.edit (h : Defines source cs pipeline) (hedit : Edit Unquoted cs cs') :
    Defines source cs' pipeline := by
  cases hedit with
  | insert hplace hinserted =>
    apply h.of_gathered hplace
    intro size size'
    rw [Reader.gathered_skipped hplace.pending hinserted, Reader.gathered_within]
  | rewrite hplace hwritten hwritten' =>
    apply h.of_gathered hplace
    intro size size'
    rw [Reader.gathered_writes hplace.pending hwritten, Reader.gathered_writes hplace.pending hwritten',
      Reader.gathered_within]
  | permute hplace houtside hopens hin htag htag' hpermutes hnames =>
    exact h.permute hplace houtside hopens hin htag htag' hpermutes hnames

theorem Defines.edited (h : Defines source cs pipeline) (hedited : Edited Unquoted cs cs') :
    Defines source cs' pipeline := by
  induction hedited with
  | refl => exact h
  | tail _ hedit ih => exact ih.edit hedit

/--
The layout of a definition does not count. By `Edit.exists_permute` each tag of the vocabulary outside of
responses is one of those whose attributes may change places.
-/
theorem read_edited {text text' : String}
    (hedited : Edited Unquoted (Reader.withoutMark text.toList) (Reader.withoutMark text'.toList))
    (hread : read source text = .ok pipeline) : read source text' = .ok pipeline :=
  read_eq_ok_iff.mpr ((read_eq_ok_iff.mp hread).edited hedited)

def sampleTag : WrittenTag where
  name := "transformer".toList
  attributes := [
    { lead := [' '], key := "name".toList, quote := '"', value := ['t'] },
    { lead := [' '], key := "xsl-path".toList, quote := '"', value := "t.xsl".toList }]
  isEmpty := false

def permutedTag : WrittenTag where
  name := "transformer".toList
  attributes := [
    { lead := ['\n'], key := "xsl-path".toList, quote := '\'', value := "t.xsl".toList },
    { lead := [' '], key := "name".toList, quote := '"', value := ['t'] }]
  isEmpty := false

def plainText : String :=
  "<pipeline xmlns=\"http://www.armatiek.com/xslweb/pipeline\">"
    ++ ("<transformer name=\"t\" xsl-path=\"t.xsl\">"
      ++ "<parameter name=\"p\"><value>a&lt;b</value></parameter></transformer></pipeline>")

def editedText : String :=
  "<pipeline xmlns=\"http://www.armatiek.com/xslweb/pipeline\">"
    ++ ("<!--c--><transformer\nxsl-path='t.xsl' name=\"t\">"
      ++ "<parameter name=\"p\"><value>a<![CDATA[<]]>b</value></parameter></transformer></pipeline>")

def plainPipeline : Pipeline where
  steps := [.transform {
    name := "t", templatePath := "t.xsl", parameters := [{ name := "p", values := ["a<b"] }] }]

theorem read_edited_plainText :
    Edited Unquoted (Reader.withoutMark plainText.toList) (Reader.withoutMark editedText.toList)
      ∧ read none plainText = .ok plainPipeline ∧ read none editedText = .ok plainPipeline := by
  let head := "<pipeline xmlns=\"http://www.armatiek.com/xslweb/pipeline\">".toList
  let opened := "<parameter name=\"p\"><value>a".toList
  let closed := "b</value></parameter></transformer></pipeline>".toList
  let behind := opened ++ ("&lt;".toList ++ closed)
  let before := head ++ ("<!--c-->".toList ++ '<' :: (permutedTag.chars ++ opened))
  have hhead : Reader.ReadsTo head ((Reader.ofChars head).forward 1) := .of_forward (by decide +kernel)
  have hpermute : Edit Unquoted (head ++ '<' :: (sampleTag.chars ++ behind))
      (head ++ '<' :: (permutedTag.chars ++ behind)) := by
    have hopens : { (Reader.ofChars head).forward 1 with
        rest := '<' :: (sampleTag.chars ++ behind) }.step.opened?
        = some ({ localName := "transformer", uri := some pipelineNamespace }, behind) := by decide +kernel
    exact .permute hhead (by decide +kernel) hopens (by decide +kernel) (by decide +kernel)
      (by decide +kernel) (by decide +kernel) (by decide +kernel)
  have hinsert : Edit Unquoted (head ++ '<' :: (permutedTag.chars ++ behind))
      (head ++ ("<!--c-->".toList ++ '<' :: (permutedTag.chars ++ behind))) :=
    .insert hhead (.comment (by decide +kernel : ¬ ['-', '-', '>'] <:+: ['c']))
  have hrewrite : Edit Unquoted (before ++ ("&lt;".toList ++ closed))
      (before ++ ('<' :: ("![CDATA[".toList ++ (['<'] ++ [']', ']', '>'])) ++ closed)) := by
    have hplace : Reader.ReadsTo before ((Reader.ofChars before).forward 6) :=
      .of_forward (by decide +kernel)
    have hwritten : Writes "&lt;".toList ['<'] :=
      .data (by decide +kernel) (eq_ok_of_toOption (by decide +kernel))
    exact .rewrite hplace hwritten (.cdata (by decide +kernel))
  have hedited : Edited Unquoted (Reader.withoutMark plainText.toList)
      (Reader.withoutMark editedText.toList) := by
    have hplain : plainText.toList = head ++ '<' :: (sampleTag.chars ++ behind) := by
      unfold plainText
      rw [String.toList_append, String.toList_append]
      rfl
    have hbetween : head ++ ("<!--c-->".toList ++ '<' :: (permutedTag.chars ++ behind))
        = before ++ ("&lt;".toList ++ closed) := by rfl
    have hdone : editedText.toList
        = before ++ ('<' :: ("![CDATA[".toList ++ (['<'] ++ [']', ']', '>'])) ++ closed) := by
      unfold editedText before
      rw [String.toList_append, String.toList_append, List.append_assoc]
      rfl
    rw [hplain, hdone]
    exact ((Relation.ReflTransGen.single hpermute).tail (hbetween ▸ hinsert)).tail hrewrite
  have hread : read none plainText = .ok plainPipeline := eq_ok_of_toOption (by decide +kernel)
  exact ⟨hedited, hread, read_edited hedited hread⟩

/-! ### Names with quotation marks -/

def quotingTag : WrittenTag where
  name := "pipeline".toList
  attributes := [
    { lead := [' '], key := "xmlns".toList, quote := '"', value := pipelineNamespace.toList },
    { lead := [' '], key := "b'".toList, quote := '"', value := ['>'] },
    { lead := [' '], key := "a'".toList, quote := '"', value := ['\''] }]
  isEmpty := true

def quotingTag' : WrittenTag where
  name := "pipeline".toList
  attributes := [
    { lead := [' '], key := "xmlns".toList, quote := '"', value := pipelineNamespace.toList },
    { lead := [' '], key := "a'".toList, quote := '"', value := ['\''] },
    { lead := [' '], key := "b'".toList, quote := '"', value := ['>'] }]
  isEmpty := true

def quotingText : String :=
  "<pipeline xmlns=\"http://www.armatiek.com/xslweb/pipeline\" b'=\">\" a'=\"'\"/>"

def quotingText' : String :=
  "<pipeline xmlns=\"http://www.armatiek.com/xslweb/pipeline\" a'=\"'\" b'=\">\"/>"

/--
Where a name holds a quotation mark, the order of the attributes decides where the tag ends.
-/
theorem not_read_quoting :
    Edited (fun _ => True) (Reader.withoutMark quotingText.toList) (Reader.withoutMark quotingText'.toList)
      ∧ read none quotingText = .ok { steps := [], cache := {} }
      ∧ ∀ pipeline, read none quotingText' ≠ .ok pipeline := by
  have hplace : Reader.ReadsTo [] ((Reader.ofChars []).forward 0) := .of_forward ⟨rfl, rfl⟩
  have hopens : { (Reader.ofChars []).forward 0 with
      rest := '<' :: (quotingTag.chars ++ []) }.step.opened?
      = some ({ localName := "pipeline", uri := some pipelineNamespace }, []) := by decide +kernel
  have hedit : Edit (fun _ => True) ([] ++ '<' :: (quotingTag.chars ++ []))
      ([] ++ '<' :: (quotingTag'.chars ++ [])) :=
    .permute hplace (by decide +kernel) hopens (by decide +kernel) (by decide +kernel) (by decide +kernel)
      (by decide +kernel) fun _ _ => trivial
  refine ⟨.single ?_, ?_, ?_⟩
  · have hbefore : Reader.withoutMark quotingText.toList = [] ++ '<' :: (quotingTag.chars ++ []) := by
      decide +kernel
    have hafter : Reader.withoutMark quotingText'.toList = [] ++ '<' :: (quotingTag'.chars ++ []) := by
      decide +kernel
    rw [hbefore, hafter]
    exact hedit
  · exact eq_ok_of_toOption (by decide +kernel)
  · intro pipeline hread
    have hnone : (read none quotingText').toOption = none := by decide +kernel
    rw [hread] at hnone
    cases hnone

end Pipeline
end XmlPipeline
