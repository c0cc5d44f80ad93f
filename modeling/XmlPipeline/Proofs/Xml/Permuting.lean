import Mathlib.Data.List.Perm.Basic
import XmlPipeline.Proofs.Xml.TagLayout

/-!
This module contains the order of the attributes in a tag. The main statement is that a tag with its attributes
in another order opens the same element, as long as the declarations among them stay in order.
-/

namespace XmlPipeline
namespace Xml

/-! ### What the parts of a tag open -/

namespace RawAttribute

def ofPart (part : List Char × List Char) : RawAttribute :=
  { key := part.1, position := 0, value := part.2 }

end RawAttribute

namespace Scope

variable {scope inner : Scope} {start final : ElementStart} {raw : RawAttribute}
  {raws raws' : List RawAttribute} {name : List Char} {parts parts' : List (List Char × List Char)}

def openParts (scope : Scope) (name : List Char) (parts : List (List Char × List Char)) :
    Except SyntaxError (ElementStart × Scope) := do
  let inner ← scope.declareAll (parts.map RawAttribute.ofPart)
  let name ← inner.elementName name
  let start ← (parts.map RawAttribute.ofPart).foldlM inner.addAttribute { name }
  return (start, inner)

theorem declareAll_parts (scope : Scope) (raws : List RawAttribute) :
    scope.declareAll ((raws.map (·.part)).map RawAttribute.ofPart) = scope.declareAll raws := by
  unfold declareAll
  rw [List.map_map, List.foldlM_map]
  rfl

theorem foldlM_addAttribute_parts (scope : Scope) (raws : List RawAttribute) (start : ElementStart) :
    ((raws.map (·.part)).map RawAttribute.ofPart).foldlM scope.addAttribute start
      = raws.foldlM scope.addAttribute start := by
  rw [List.map_map, List.foldlM_map]
  rfl

theorem openElement_of_read {content : List Char}
    (h : Tag.read true content = { name, attributes := raws, failure := none }) :
    scope.openElement content = scope.openParts name (raws.map (·.part)) := by
  have hlax := Tag.attributes_read_lax (congrArg Tag.failure h)
  unfold openElement openParts
  rw [hlax, h, declareAll_parts]
  simp only [foldlM_addAttribute_parts]

def bindingOf? (raw : RawAttribute) : Option NamespaceBinding := do
  let pfx ← declaredPrefix? raw.key
  let value ← (unescape raw.value).toOption
  return { pfx, uri := String.ofList value }

def attributeOf? (scope : Scope) (raw : RawAttribute) : Option Attribute := do
  guard !raw.isDeclaration
  let name ← (scope.attributeName raw.key).toOption
  let value ← (unescape raw.value).toOption
  return { name, value := String.ofList value }

def Resolves (scope : Scope) (raw : RawAttribute) : Prop :=
  ∃ start next, scope.addAttribute start raw = .ok next

theorem addAttribute_resolved (h : scope.Resolves raw) (start : ElementStart) :
    scope.addAttribute start raw = .ok { start with
      namespaces := start.namespaces ++ (bindingOf? raw).toList
      attributes := start.attributes ++ (scope.attributeOf? raw).toList } := by
  obtain ⟨other, next, hnext⟩ := h
  unfold addAttribute at hnext ⊢
  obtain ⟨value, hvalue, hnext⟩ := exists_of_bind_ok hnext
  have hunescape := exists_of_mapError_ok hvalue
  cases hpfx : declaredPrefix? raw.key with
  | some pfx =>
    simp [hpfx, hunescape, bindingOf?, attributeOf?, RawAttribute.isDeclaration, Except.toOption,
      Except.mapError, bind, Except.bind, pure, Except.pure, guard, failure]
  | none =>
    rw [hpfx] at hnext
    obtain ⟨name, hname, -⟩ := exists_of_bind_ok hnext
    simp [hpfx, hunescape, hname, bindingOf?, attributeOf?, RawAttribute.isDeclaration, Except.toOption,
      Except.mapError, bind, Except.bind, pure, Except.pure, guard]

theorem foldlM_addAttribute_resolved (h : ∀ raw ∈ raws, scope.Resolves raw) (start : ElementStart) :
    raws.foldlM scope.addAttribute start = .ok { start with
      namespaces := start.namespaces ++ raws.filterMap bindingOf?
      attributes := start.attributes ++ raws.filterMap scope.attributeOf? } := by
  have hcons : ∀ {α : Type} (f : RawAttribute → Option α) raw raws,
      (raw :: raws).filterMap f = (f raw).toList ++ raws.filterMap f := by
    intro α f raw raws
    cases hf : f raw <;> simp [hf]
  induction raws generalizing start with
  | nil => simp [pure, Except.pure]
  | cons raw raws ih =>
    rw [List.foldlM_cons, addAttribute_resolved (h raw List.mem_cons_self)]
    have hrest := ih (fun other hother => h other (List.mem_cons_of_mem _ hother))
    refine (hrest _).trans ?_
    rw [hcons, hcons]
    simp

theorem resolves_of_foldlM (h : raws.foldlM scope.addAttribute start = .ok final) :
    ∀ raw ∈ raws, scope.Resolves raw := by
  induction raws generalizing start with
  | nil => simp
  | cons raw raws ih =>
    rw [List.foldlM_cons] at h
    obtain ⟨next, hnext, hrest⟩ := exists_of_bind_ok h
    intro other hother
    cases List.mem_cons.mp hother with
    | inl heq => exact heq ▸ ⟨start, next, hnext⟩
    | inr hmem => exact ih hrest other hmem

theorem declareAll_filter (scope : Scope) (raws : List RawAttribute) :
    scope.declareAll raws = scope.declareAll (raws.filter (·.isDeclaration)) := by
  induction raws generalizing scope with
  | nil => rfl
  | cons raw raws ih =>
    unfold declareAll at ih ⊢
    cases hdeclaration : raw.isDeclaration with
    | true =>
      rw [List.filter_cons_of_pos hdeclaration, List.foldlM_cons, List.foldlM_cons]
      congr 1
      funext next
      exact ih next
    | false =>
      have hnone : declaredPrefix? raw.key = none := by
        simpa [RawAttribute.isDeclaration] using hdeclaration
      rw [List.filter_cons_of_neg (by simp [hdeclaration]), List.foldlM_cons]
      simp only [declare, hnone]
      exact ih scope

theorem filterMap_bindingOf? (raws : List RawAttribute) :
    raws.filterMap bindingOf? = (raws.filter (·.isDeclaration)).filterMap bindingOf? := by
  rw [List.filterMap_filter]
  congr 1
  funext raw
  cases hpfx : declaredPrefix? raw.key <;> simp [bindingOf?, RawAttribute.isDeclaration, hpfx]

end Scope

/-! ### Attributes in another order -/

def isDeclaration (part : List Char × List Char) : Bool :=
  (declaredPrefix? part.1).isSome

namespace ElementStart

structure Rearranged (start start' : ElementStart) : Prop where
  name : start'.name = start.name
  namespaces : start'.namespaces = start.namespaces
  attributes : start.attributes.Perm start'.attributes

end ElementStart

namespace Scope

variable {scope inner : Scope} {start : ElementStart} {name : List Char}
  {parts parts' : List (List Char × List Char)}

theorem openParts_perm (hperm : parts.Perm parts')
    (hdeclarations : parts'.filter isDeclaration = parts.filter isDeclaration)
    (h : scope.openParts name parts = .ok (start, inner)) :
    ∃ start', scope.openParts name parts' = .ok (start', inner) ∧ start.Rearranged start' := by
  have hfilter : ∀ parts : List (List Char × List Char),
      (parts.map RawAttribute.ofPart).filter (·.isDeclaration)
        = (parts.filter isDeclaration).map RawAttribute.ofPart := by
    intro parts
    rw [List.filter_map]
    rfl
  have hsame : (parts'.map RawAttribute.ofPart).filter (·.isDeclaration)
      = (parts.map RawAttribute.ofPart).filter (·.isDeclaration) := by
    rw [hfilter, hfilter, hdeclarations]
  have hraws : (parts.map RawAttribute.ofPart).Perm (parts'.map RawAttribute.ofPart) := hperm.map _
  unfold openParts at h ⊢
  rw [declareAll_filter] at h
  rw [declareAll_filter, hsame]
  generalize parts.map RawAttribute.ofPart = raws at h hsame hraws ⊢
  generalize parts'.map RawAttribute.ofPart = raws' at hsame hraws ⊢
  obtain ⟨within, hwithin, h⟩ := exists_of_bind_ok h
  obtain ⟨resolved, hname, h⟩ := exists_of_bind_ok h
  obtain ⟨final, hfinal, h⟩ := exists_of_bind_ok h
  obtain ⟨rfl, rfl⟩ := Prod.mk.inj (Except.ok.inj h)
  have hall := resolves_of_foldlM hfinal
  have hall' : ∀ raw ∈ raws', within.Resolves raw := fun raw hraw => hall raw (hraws.mem_iff.mpr hraw)
  rw [foldlM_addAttribute_resolved hall] at hfinal
  obtain rfl := Except.ok.inj hfinal
  have hfinal' := foldlM_addAttribute_resolved hall' { name := resolved }
  refine ⟨{ name := resolved
            namespaces := [] ++ raws'.filterMap bindingOf?
            attributes := [] ++ raws'.filterMap within.attributeOf? }, ?_, ?_⟩
  · simp only [hwithin, hname, hfinal', bind, Except.bind, pure, Except.pure]
  · refine ⟨rfl, ?_, ?_⟩
    · simp only [List.nil_append]
      rw [filterMap_bindingOf?, hsame, ← filterMap_bindingOf?]
    · simpa using hraws.filterMap _

end Scope

/-! ### Permuted tags -/

namespace WrittenTag

variable {tag : WrittenTag}

/--
The other tag has the same attributes, in which the declarations are in the same order. Blanks around them and
quotes may differ.
-/
structure Permutes (tag tag' : WrittenTag) : Prop where
  name : tag'.name = tag.name
  blanks : tag'.blanks = tag.blanks
  isEmpty : tag'.isEmpty = tag.isEmpty
  parts : tag.parts.Perm tag'.parts
  declarations : tag'.parts.filter isDeclaration = tag.parts.filter isDeclaration

instance (tag tag' : WrittenTag) : Decidable (tag.Permutes tag') :=
  decidable_of_iff
    (tag'.name = tag.name ∧ tag'.blanks = tag.blanks ∧ tag'.isEmpty = tag.isEmpty
      ∧ tag.parts.Perm tag'.parts ∧ tag'.parts.filter isDeclaration = tag.parts.filter isDeclaration)
    ⟨fun ⟨name, blanks, isEmpty, parts, declarations⟩ => ⟨name, blanks, isEmpty, parts, declarations⟩,
      fun h => ⟨h.name, h.blanks, h.isEmpty, h.parts, h.declarations⟩⟩

def names (tag : WrittenTag) : List (List Char) :=
  tag.name :: tag.attributes.map (·.key)

theorem keys_eq (tag : WrittenTag) : tag.attributes.map (·.key) = tag.parts.map (·.1) := by
  simp [parts, WrittenAttribute.part]

theorem Permutes.mem_names {tag' : WrittenTag} (h : tag.Permutes tag') (name : List Char) :
    name ∈ tag'.names ↔ name ∈ tag.names := by
  unfold names
  rw [List.mem_cons, List.mem_cons, h.name, keys_eq, keys_eq, (h.parts.map (·.1)).mem_iff]

theorem Permutes.eq_of_nil {tag' : WrittenTag} (h : tag.Permutes tag') (hnil : tag.attributes = []) :
    tag' = tag := by
  obtain ⟨hname, hblanks, hisEmpty, hparts, -⟩ := h
  have hnil' : tag'.attributes = [] := by
    simpa [WrittenTag.parts, hnil] using hparts
  cases tag
  cases tag'
  simp_all

theorem Permutes.isOpening {tag' : WrittenTag} (hpermutes : tag.Permutes tag') (h : tag.WellFormed)
    (hne : tag.attributes ≠ []) (h' : tag'.WellFormed) (hne' : tag'.attributes ≠ [])
    (hopening : tag.IsOpening) : tag'.IsOpening := by
  obtain ⟨blank, -, hhead⟩ := h.head?_inside hne
  obtain ⟨blank', hblank', hhead'⟩ := h'.head?_inside hne'
  unfold IsOpening at hopening ⊢
  rw [hhead] at hopening
  rw [hhead', hpermutes.name]
  cases hname : tag.name with
  | nil =>
    rintro c ⟨rfl⟩
    refine ⟨?_, ?_, ?_⟩ <;> rintro rfl <;> cases hblank'
  | cons first more => simpa [hname] using hopening

end WrittenTag

theorem ElementStart.Rearranged.refl (start : ElementStart) : start.Rearranged start :=
  ⟨rfl, rfl, .refl _⟩

theorem Scope.openElement_permuted {scope inner : Scope} {tag tag' : WrittenTag} {start : ElementStart}
    (h : tag.WellFormed) (h' : tag'.WellFormed) (hpermutes : tag.Permutes tag')
    (hopen : scope.openElement tag.content = .ok (start, inner)) :
    ∃ start', scope.openElement tag'.content = .ok (start', inner) ∧ start.Rearranged start' := by
  obtain ⟨-, -, hfailure, -⟩ := Scope.openElement_cases hopen
  -- The first tag has been read without finding a key twice.
  obtain ⟨lax, hlax, hlaxParts⟩ := Tag.read_content h false (by simp)
  have hstrict : (Tag.read true tag.content).attributes = lax := by
    rw [← Tag.attributes_read_lax hfailure, hlax]
  have hdistinct : (tag.attributes.map (·.key)).Nodup := by
    have hnodup := Tag.nodup_read tag.content
    rw [hstrict] at hnodup
    have hkeys : lax.map (·.key) = (lax.map (·.part)).map (·.1) := by simp [RawAttribute.part]
    rwa [hkeys, hlaxParts, ← WrittenTag.keys_eq] at hnodup
  have hdistinct' : (tag'.attributes.map (·.key)).Nodup := by
    rw [WrittenTag.keys_eq] at hdistinct ⊢
    exact (hpermutes.parts.map (·.1)).nodup_iff.mp hdistinct
  obtain ⟨raws, hraws, hparts⟩ := Tag.read_content h true fun _ => hdistinct
  obtain ⟨raws', hraws', hparts'⟩ := Tag.read_content h' true fun _ => hdistinct'
  rw [Scope.openElement_of_read hraws, hparts] at hopen
  rw [Scope.openElement_of_read hraws', hparts', hpermutes.name]
  exact Scope.openParts_perm hpermutes.parts hpermutes.declarations hopen

namespace Reader

variable {reader next : Reader} {tag tag' : WrittenTag} {start : ElementStart} {after : List Char}

theorem take_piece (reader : Reader) (tag : WrittenTag) (rest : List Char) :
    reader.take tag.piece rest = ({ reader with rest } : Reader).enter tag.content tag.isEmpty := by
  unfold WrittenTag.piece
  cases tag.isEmpty <;> rfl

theorem scanned_of_opening {size : Nat} (hpending : reader.pending = false)
    (hwritten : tag.WellFormed) (hnames : ∀ name ∈ tag.names, Unquoted name)
    (hstep : (reader.within size ('<' :: (tag.chars ++ after))).step = .event (.opening start) next)
    (hafter : next.rest = after) :
    tag.IsOpening ∧ ∀ name ∈ tag.names, '>' ∉ name := by
  obtain ⟨inside, content, isEmpty, inner, hcut, hfirst, -, -⟩ := cutTag?_of_opening
    (pending_within hpending size ('<' :: (tag.chars ++ after))) rfl hstep
  rw [hafter] at hcut
  obtain rfl : inside = tag.inside := by
    have hall := Markup.eq_of_cutTag? hcut
    rw [WrittenTag.chars_eq, List.append_assoc, List.singleton_append] at hall
    exact (List.append_cancel_right hall).symm
  obtain ⟨hbracket, hbrackets⟩ := WrittenTag.closed_of_cutTag? hwritten
    (hnames tag.name List.mem_cons_self)
    (fun attr hattr => hnames attr.key (List.mem_cons_of_mem _ (List.mem_map_of_mem hattr))) hcut
  refine ⟨hfirst, ?_⟩
  intro name hmem
  cases List.mem_cons.mp hmem with
  | inl heq => exact heq ▸ hbracket
  | inr hkey =>
    obtain ⟨attr, hattr, rfl⟩ := List.mem_map.mp hkey
    exact hbrackets attr hattr

theorem step_of_written (hpending : reader.pending = false) (h : tag.WellFormed)
    (hne : tag.attributes ≠ []) (hopening : tag.IsOpening)
    (hnames : ∀ name ∈ tag.names, Unquoted name ∧ '>' ∉ name) (size : Nat) (after : List Char) :
    (reader.within size ('<' :: (tag.chars ++ after))).step
      = (reader.within size after).enter tag.content tag.isEmpty := by
  have hclosed : Markup.Closed tag.content :=
    WrittenTag.closed_content h (hnames tag.name List.mem_cons_self)
      fun attr hattr => hnames attr.key (List.mem_cons_of_mem _ (List.mem_map_of_mem hattr))
  have hscan := WrittenTag.scanTag_chars h hne hclosed hopening after
  rw [step_of_scan (pending_within hpending size ('<' :: (tag.chars ++ after))) rfl
    (by simpa [Markup.scan] using hscan), take_piece]
  rfl

theorem step_permuted {size : Nat} (hpending : reader.pending = false) (h : tag.WellFormed)
    (h' : tag'.WellFormed) (hpermutes : tag.Permutes tag') (hnames : ∀ name ∈ tag.names, Unquoted name)
    (hstep : (reader.within size ('<' :: (tag.chars ++ after))).step = .event (.opening start) next)
    (hafter : next.rest = after) (size' : Nat) :
    ∃ start', start.Rearranged start'
      ∧ (reader.within size' ('<' :: (tag'.chars ++ after))).step
        = .event (.opening start') (next.within size' after) := by
  by_cases hnil : tag.attributes = []
  · refine ⟨start, .refl start, ?_⟩
    have hsame := step_within_size (reader.within size ('<' :: (tag.chars ++ after))) size'
    rw [hstep] at hsame
    rw [hpermutes.eq_of_nil hnil, ← hafter]
    rw [← hafter] at hsame
    exact hsame
  · obtain ⟨hopening, hbrackets⟩ := scanned_of_opening hpending h hnames hstep hafter
    have hplain : ∀ name ∈ tag.names, Unquoted name ∧ '>' ∉ name :=
      fun name hname => ⟨hnames name hname, hbrackets name hname⟩
    have hplain' : ∀ name ∈ tag'.names, Unquoted name ∧ '>' ∉ name :=
      fun name hname => hplain name ((hpermutes.mem_names name).mp hname)
    have hne' : tag'.attributes ≠ [] := by
      intro hnil'
      have hparts := hpermutes.parts
      simp [WrittenTag.parts, hnil'] at hparts
      exact hnil hparts
    rw [step_of_written hpending h hnil hopening hplain] at hstep
    have hopening' := hpermutes.isOpening h hnil h' hne' hopening
    rw [step_of_written hpending h' hne' hopening' hplain', hpermutes.isEmpty]
    unfold enter at hstep ⊢
    have hscope : ∀ size, (reader.within size after).scope = reader.scope := fun _ => rfl
    rw [hscope] at hstep ⊢
    split at hstep
    · cases hstep
    · next opened inner hopen =>
      obtain ⟨hopened, rfl⟩ := Step.event.inj hstep
      obtain rfl := Event.opening.inj hopened
      obtain ⟨start', hopen', hrearranged⟩ := Scope.openElement_permuted h h' hpermutes hopen
      refine ⟨start', hrearranged, ?_⟩
      obtain ⟨_, hread, -⟩ := Tag.read_content h false (by simp)
      obtain ⟨_, hread', -⟩ := Tag.read_content h' false (by simp)
      have hname : Tag.nameOf tag'.content = Tag.nameOf tag.content :=
        (congrArg Tag.name hread').trans (hpermutes.name.trans (congrArg Tag.name hread).symm)
      rw [hopen', hname]
      rfl

end Reader
end Xml
end XmlPipeline