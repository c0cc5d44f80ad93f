import XmlPipeline.Proofs.Xml.Lookup
import XmlPipeline.Proofs.Xml.WrittenMarkup

/-!
This module contains the openings that written tags stand for. Their names have the namespaces that the
declarations give them, those in the tag included.
-/

namespace XmlPipeline
namespace Xml

/-! ### Keys of attributes and declarations -/

theorem ne_of_isNameChar {c x : Char} (h : isNameChar c = true) (hx : isNameChar x = false) :
    c ≠ x := by
  rintro rfl
  simp [h] at hx

namespace QName

variable {name : QName}

theorem IsWritable.isNameChar_or_colon (h : name.IsWritable) :
    ∀ c ∈ name.lexical.toList, isNameChar c = true ∨ c = ':' := by
  intro c hc
  unfold lexical at hc
  cases hpfx : name.pfx with
  | none =>
    rw [hpfx] at hc
    exact .inl (h.1.isNameChar c hc)
  | some pfx =>
    rw [hpfx] at hc
    have hpfx := h.2 pfx hpfx
    simp only [String.toList_append, List.mem_append] at hc
    rcases hc with (hc | hc) | hc
    · exact .inl (hpfx.isNameChar c hc)
    · exact .inr (by simpa using hc)
    · exact .inl (h.1.isNameChar c hc)

theorem IsWritable.exists_cons (h : name.IsWritable) :
    ∃ first rest, name.lexical.toList = first :: rest ∧ isNameStart first = true := by
  unfold lexical
  cases hpfx : name.pfx with
  | none => exact h.1.exists_cons
  | some pfx =>
    obtain ⟨first, rest, hlist, hfirst⟩ := (h.2 pfx hpfx).exists_cons
    refine ⟨first, rest ++ ':' :: name.localName.toList, ?_, hfirst⟩
    simp [hlist]

theorem IsWritable.ne (h : name.IsWritable) {c x : Char} (hc : c ∈ name.lexical.toList)
    (hx : isNameChar x = false) (hcolon : x ≠ ':') : c ≠ x := by
  cases h.isNameChar_or_colon c hc with
  | inl hname => exact ne_of_isNameChar hname hx
  | inr heq => exact heq ▸ Ne.symm hcolon

theorem IsWritable.isKey (h : name.IsWritable) : IsKey name.lexical := by
  constructor
  · obtain ⟨first, rest, hlist, _⟩ := h.exists_cons
    intro hempty
    simp [hempty] at hlist
  · intro c hc
    have hne : ∀ x ∈ [' ', '\t', '\r', '\n', '=', '>', '\'', '"'], c ≠ x := by
      intro x hx
      apply h.ne hc
      · simp only [List.mem_cons, List.not_mem_nil, or_false] at hx
        rcases hx with rfl | rfl | rfl | rfl | rfl | rfl | rfl | rfl <;> decide
      · rintro rfl
        simp at hx
    simp [isSpace, hne]

theorem IsWritable.isTagName (h : name.IsWritable) : IsTagName name.lexical :=
  ⟨h.isKey, fun _ hc =>
    ⟨h.ne hc (by decide) (by decide), h.ne hc (by decide) (by decide), h.ne hc (by decide) (by decide)⟩⟩

theorem ne_colon {part : String} (h : IsNCName part) : ∀ c ∈ part.toList, (c == ':') = false := by
  intro c hc
  rw [beq_eq_false_iff_ne]
  exact ne_of_isNameChar (h.isNameChar c hc) (by decide)

theorem splitName_lexical (h : name.IsWritable) :
    splitName name.lexical.toList = (name.pfx, name.localName) := by
  unfold lexical splitName
  cases hpfx : name.pfx with
  | none =>
    simp only
    rw [cutAt?_eq_none (ne_colon h.1)]
    simp
  | some pfx =>
    have hcut : Text.cutAt? (· == ':') (pfx.toList ++ ':' :: name.localName.toList)
        = some (pfx.toList, ':', name.localName.toList) :=
      cutAt?_append _ (ne_colon (h.2 pfx hpfx)) (by decide)
    have hlist : (pfx ++ ":" ++ name.localName).toList = pfx.toList ++ ':' :: name.localName.toList := by
      simp
    simp only
    rw [hlist, hcut]
    simp

theorem declaredPrefix?_lexical (h : name.IsWritable) (hxmlns : name.lexical ≠ "xmlns")
    (hpfx : name.pfx ≠ some "xmlns") : declaredPrefix? name.lexical.toList = none := by
  unfold declaredPrefix?
  split
  · next hafter =>
    have := Text.eq_of_afterMarker? hafter
    exact absurd (String.toList_inj.mp this) hxmlns
  · next pfx hafter =>
    have hsplit := splitName_lexical h
    rw [Text.eq_of_afterMarker? hafter] at hsplit
    have hcut : Text.cutAt? (· == ':') (['x', 'm', 'l', 'n', 's'] ++ ':' :: pfx)
        = some (['x', 'm', 'l', 'n', 's'], ':', pfx) := cutAt?_append _ (by simp) (by decide)
    unfold splitName at hsplit
    rw [hcut] at hsplit
    exact absurd (Prod.mk.inj hsplit).1.symm hpfx
  · rfl

end QName

namespace NamespaceBinding

variable {binding : NamespaceBinding}

theorem isKey_key (h : binding.Declarable) : IsKey binding.key := by
  cases hpfx : binding.pfx with
  | none =>
    have hname : QName.IsWritable { localName := "xmlns" } := ⟨by decide, by simp⟩
    simpa [key, hpfx, QName.lexical] using hname.isKey
  | some pfx =>
    have hname : QName.IsWritable { pfx := some "xmlns", localName := pfx } :=
      ⟨h.name pfx hpfx, by simp; decide⟩
    simpa [key, hpfx, QName.lexical] using hname.isKey

theorem declaredPrefix?_key : declaredPrefix? binding.key.toList = some binding.pfx := by
  unfold key
  cases binding.pfx <;> simp [declaredPrefix?, Text.afterMarker?]

theorem key_inj {other : NamespaceBinding} (h : binding.key = other.key) : binding.pfx = other.pfx := by
  have hpfx : declaredPrefix? binding.key.toList = some binding.pfx := declaredPrefix?_key
  rw [h, declaredPrefix?_key] at hpfx
  exact (Option.some.inj hpfx).symm

end NamespaceBinding

/-! ### The opening that a tag stands for -/

namespace ElementStart

variable {scope : Scope} {start : ElementStart} {bindings : List NamespaceBinding}
  (spelling : Spelling)

def parts (start : ElementStart) : List (String × String) :=
  start.namespaces.map (fun binding => (binding.key, binding.uri))
    ++ start.attributes.map (fun attr => (attr.name.lexical, attr.value))

def spelled (start : ElementStart) : List Char :=
  start.name.lexical.toList ++ spelling.writtenChars start.parts

theorem tagChars_eq (start : ElementStart) : start.tagChars = start.spelled .escaped := by
  simp [tagChars, spelled, Spelling.writtenChars, parts, List.flatMap_map]
  rfl

theorem closed_spelled (hname : IsKey start.name.lexical) (hkeys : ∀ part ∈ start.parts, IsKey part.1) :
    Markup.Closed (start.spelled spelling) := by
  unfold spelled
  apply Markup.Closed.append
  · apply Markup.Closed.plain
    intro c hc
    exact (hname.2 c hc).2.2
  · exact closed_writtenChars spelling hkeys

theorem read_spelled (unique : Bool) (hname : IsKey start.name.lexical)
    (hkeys : ∀ part ∈ start.parts, IsKey part.1)
    (hdistinct : unique = true → (start.parts.map (·.1)).Nodup) :
    Tag.read unique (start.spelled spelling) = {
      name := start.name.lexical.toList
      attributes := spelling.writtenAttributes (Utf8.size (start.spelled spelling)) start.parts
      failure := none } := by
  have hname : ∀ c ∈ start.name.lexical.toList, (!isSpace c) = true := by
    intro c hc
    simp [(hname.2 c hc).1]
  have hsplit : (start.spelled spelling).takeWhile (!isSpace ·) = start.name.lexical.toList
      ∧ (start.spelled spelling).dropWhile (!isSpace ·) = spelling.writtenChars start.parts := by
    unfold spelled
    cases start.parts with
    | nil =>
      rw [List.takeWhile_append_of_pos hname, List.dropWhile_append_of_pos hname]
      simp [Spelling.writtenChars]
    | cons part parts =>
      rw [writtenChars_cons, takeWhile_append_stop _ hname (by decide),
        dropWhile_append_stop _ hname (by decide)]
      exact ⟨rfl, rfl⟩
  have hscan : Tag.scanAttributes unique (Utf8.size (start.spelled spelling)) []
        (spelling.writtenChars start.parts)
      = (spelling.writtenAttributes (Utf8.size (start.spelled spelling)) start.parts, none) :=
    Tag.scanAttributes_written spelling unique _ hkeys hdistinct (by simp)
  unfold Tag.read Tag.nameOf
  rw [hsplit.1, hsplit.2, hscan]

/--
The spelling leaves the declared namespaces as they are. The reader resolves names before it resolves
references.
-/
def Kept (start : ElementStart) : Prop :=
  ∀ binding ∈ start.namespaces, spelling.write binding.uri.toList = binding.uri.toList

theorem Readable.isKey (h : start.Readable scope) : ∀ part ∈ start.parts, IsKey part.1 := by
  intro part hpart
  cases List.mem_append.mp hpart with
  | inl hpart =>
    obtain ⟨binding, hbinding, rfl⟩ := List.mem_map.mp hpart
    exact NamespaceBinding.isKey_key (h.namespaces_declarable binding hbinding)
  | inr hpart =>
    obtain ⟨attr, hattr, rfl⟩ := List.mem_map.mp hpart
    exact (h.attributes_writable attr hattr).isKey

theorem Readable.declaredPrefix?_attribute (h : start.Readable scope) {attr : Attribute}
    (hattr : attr ∈ start.attributes) : declaredPrefix? attr.name.lexical.toList = none := by
  obtain ⟨hxmlns, hpfx⟩ := h.attributes_undeclaring attr hattr
  exact QName.declaredPrefix?_lexical (h.attributes_writable attr hattr) hxmlns hpfx

theorem Readable.nodup_keys (h : start.Readable scope) : (start.parts.map (·.1)).Nodup := by
  unfold parts
  rw [List.map_append, List.map_map, List.map_map, List.nodup_append]
  refine ⟨?_, h.attributes_distinct, ?_⟩
  · have hdistinct := List.pairwise_map.mp h.namespaces_distinct
    apply List.pairwise_map.mpr
    apply hdistinct.imp
    intro binding other hne hkey
    exact hne (NamespaceBinding.key_inj hkey)
  · intro key hkey other hother heq
    obtain ⟨binding, _, rfl⟩ := List.mem_map.mp hkey
    obtain ⟨attr, hattr, rfl⟩ := List.mem_map.mp hother
    have hnone := h.declaredPrefix?_attribute hattr
    simp only [Function.comp_apply] at heq
    rw [← heq, NamespaceBinding.declaredPrefix?_key] at hnone
    simp at hnone

theorem Readable.read_spelled (h : start.Readable scope) (unique : Bool) :
    Tag.read unique (start.spelled spelling) = {
      name := start.name.lexical.toList
      attributes := spelling.writtenAttributes (Utf8.size (start.spelled spelling)) start.parts
      failure := none } :=
  ElementStart.read_spelled spelling unique h.writable.isKey h.isKey fun _ => h.nodup_keys

end ElementStart

namespace Scope

variable {start : ElementStart} (spelling : Spelling)

theorem declare_written {position : Nat} {binding : NamespaceBinding} (scope : Scope)
    (h : binding.Declarable) (hkept : spelling.write binding.uri.toList = binding.uri.toList) :
    scope.declare { key := binding.key.toList, position, value := spelling.write binding.uri.toList }
      = .ok (scope.add binding) := by
  unfold declare add
  simp only [NamespaceBinding.declaredPrefix?_key, hkept, String.ofList_toList]
  cases hpfx : binding.pfx with
  | none => rfl
  | some pfx =>
    have hallowed := h.allowed pfx hpfx
    by_cases hxml : pfx = "xml"
    · rw [if_pos hxml] at hallowed
      simp [hxml, hallowed]
    · rw [if_neg hxml] at hallowed
      simp [hxml, hallowed]

theorem foldlM_declare_namespaces (size : Nat) (parts : List (String × String)) (scope : Scope)
    {namespaces : List NamespaceBinding} (h : ∀ binding ∈ namespaces, binding.Declarable)
    (hkept : ∀ binding ∈ namespaces, spelling.write binding.uri.toList = binding.uri.toList) :
    (spelling.writtenAttributes size
        (namespaces.map (fun binding => (binding.key, binding.uri)) ++ parts)).foldlM declare scope
      = (spelling.writtenAttributes size parts).foldlM declare (scope.addAll namespaces) := by
  induction namespaces generalizing scope with
  | nil => rfl
  | cons binding namespaces ih =>
    rw [List.map_cons, List.cons_append, Spelling.writtenAttributes, List.foldlM_cons,
      declare_written spelling _ (h binding List.mem_cons_self) (hkept binding List.mem_cons_self)]
    exact ih (scope.add binding) (fun other hother => h other (List.mem_cons_of_mem _ hother))
      fun other hother => hkept other (List.mem_cons_of_mem _ hother)

theorem foldlM_declare_attributes (size : Nat) (scope : Scope) {attributes : List Attribute}
    (h : ∀ attr ∈ attributes, declaredPrefix? attr.name.lexical.toList = none) :
    (spelling.writtenAttributes size
      (attributes.map fun attr => (attr.name.lexical, attr.value))).foldlM declare scope = .ok scope := by
  induction attributes with
  | nil => rfl
  | cons attr attributes ih =>
    have hattr : ∀ position value,
        scope.declare { key := attr.name.lexical.toList, position, value } = .ok scope := by
      intro position value
      simp [declare, h attr List.mem_cons_self]
    rw [List.map_cons, Spelling.writtenAttributes, List.foldlM_cons, hattr]
    exact ih fun other hother => h other (List.mem_cons_of_mem _ hother)

theorem mapError_unescape_write {ε : Type} (report : ReferenceError → ε) (cs : List Char) :
    (unescape (spelling.write cs)).mapError report = .ok cs := by
  rw [spelling.unescape_write]
  rfl

theorem foldlM_addAttribute_namespaces (size : Nat) (scope : Scope) (parts : List (String × String))
    (start : ElementStart) (namespaces : List NamespaceBinding) :
    (spelling.writtenAttributes size
        (namespaces.map (fun binding => (binding.key, binding.uri)) ++ parts)).foldlM
        scope.addAttribute start
      = (spelling.writtenAttributes size parts).foldlM scope.addAttribute
          { start with namespaces := start.namespaces ++ namespaces } := by
  induction namespaces generalizing start with
  | nil => simp
  | cons binding namespaces ih =>
    have hadd : ∀ position, scope.addAttribute start
          { key := binding.key.toList, position, value := spelling.write binding.uri.toList }
        = .ok { start with namespaces := start.namespaces ++ [binding] } := by
      intro position
      unfold addAttribute
      rw [mapError_unescape_write]
      simp [NamespaceBinding.declaredPrefix?_key, bind, Except.bind, pure, Except.pure]
    rw [List.map_cons, List.cons_append, Spelling.writtenAttributes, List.foldlM_cons, hadd]
    simpa [bind, Except.bind] using ih { start with namespaces := start.namespaces ++ [binding] }

theorem foldlM_addAttribute_attributes (size : Nat) (scope : Scope) (start : ElementStart)
    {attributes : List Attribute}
    (hundeclaring : ∀ attr ∈ attributes, declaredPrefix? attr.name.lexical.toList = none)
    (hname : ∀ attr ∈ attributes, scope.attributeName attr.name.lexical.toList = .ok attr.name) :
    (spelling.writtenAttributes size
        (attributes.map fun attr => (attr.name.lexical, attr.value))).foldlM scope.addAttribute start
      = .ok { start with attributes := start.attributes ++ attributes } := by
  induction attributes generalizing start with
  | nil => simp [Spelling.writtenAttributes, pure, Except.pure]
  | cons attr attributes ih =>
    have hadd : ∀ position, scope.addAttribute start
          { key := attr.name.lexical.toList, position, value := spelling.write attr.value.toList }
        = .ok { start with attributes := start.attributes ++ [attr] } := by
      intro position
      unfold addAttribute
      rw [mapError_unescape_write]
      simp [hundeclaring attr List.mem_cons_self, hname attr List.mem_cons_self, bind, Except.bind,
        pure, Except.pure]
    rw [List.map_cons, Spelling.writtenAttributes, List.foldlM_cons, hadd]
    have hrest := ih { start with attributes := start.attributes ++ [attr] }
      (fun other hother => hundeclaring other (List.mem_cons_of_mem _ hother))
      (fun other hother => hname other (List.mem_cons_of_mem _ hother))
    simpa [bind, Except.bind] using hrest

theorem openElement_spelled {scope : Scope} (h : start.Readable (scope.addAll start.namespaces))
    (hkept : start.Kept spelling) :
    scope.openElement (start.spelled spelling) = .ok (start, scope.addAll start.namespaces) := by
  -- The declarations of the tag are in force for its own name and attributes.
  have hdeclare : scope.declareAll
        (spelling.writtenAttributes (Utf8.size (start.spelled spelling)) start.parts)
      = .ok (scope.addAll start.namespaces) := by
    unfold declareAll ElementStart.parts
    rw [foldlM_declare_namespaces spelling _ _ _ h.namespaces_declarable hkept]
    exact foldlM_declare_attributes spelling _ _ fun attr hattr => h.declaredPrefix?_attribute hattr
  have hadd : (spelling.writtenAttributes (Utf8.size (start.spelled spelling)) start.parts).foldlM
      (scope.addAll start.namespaces).addAttribute { name := start.name } = .ok start := by
    unfold ElementStart.parts
    rw [foldlM_addAttribute_namespaces, foldlM_addAttribute_attributes]
    · simp
    · exact fun attr hattr => h.declaredPrefix?_attribute hattr
    · exact h.attributes_resolved
  unfold openElement
  simp only [h.read_spelled, hdeclare, h.resolved, hadd, bind, Except.bind, pure, Except.pure]

end Scope

/-! ### Well-formed openings and contents -/

namespace Scope

variable {bindings : List NamespaceBinding} {name : QName}

def ofBindings (bindings : List NamespaceBinding) : Scope :=
  bindings.map (fun binding => (binding.pfx.getD "", binding.uri)) ++ initial

theorem addAll_ofBindings {namespaces : List NamespaceBinding}
    (h : ∀ binding ∈ namespaces, binding.WellFormed) :
    (ofBindings bindings).addAll namespaces = ofBindings (namespaces.reverse ++ bindings) := by
  induction namespaces generalizing bindings with
  | nil => rfl
  | cons binding namespaces ih =>
    have hadd : (ofBindings bindings).add binding = ofBindings (binding :: bindings) :=
      if_neg (h binding List.mem_cons_self).unreserved.1
    have hrest : (ofBindings (binding :: bindings)).addAll namespaces
        = ofBindings (namespaces.reverse ++ binding :: bindings) :=
      ih fun other hother => h other (List.mem_cons_of_mem _ hother)
    rw [List.reverse_cons, List.append_assoc, List.singleton_append, ← hrest, ← hadd]
    rfl

theorem ofBindings_eq (h : ∀ binding ∈ bindings, binding.WellFormed) :
    ofBindings bindings = initial.addAll bindings.reverse := by
  have hall : (ofBindings []).addAll bindings.reverse = ofBindings (bindings.reverse.reverse ++ []) :=
    addAll_ofBindings fun binding hbinding => h binding (List.mem_reverse.mp hbinding)
  rw [List.reverse_reverse, List.append_nil] at hall
  exact hall.symm

theorem uri?_xml (h : ∀ binding ∈ bindings, binding.WellFormed) :
    (ofBindings bindings).uri? "xml" = some xmlNamespace := by
  rw [ofBindings_eq h, uri?_addAll_xml]
  rfl

theorem uri?_ofBindings {pfx : String} (h : ∀ binding ∈ bindings, binding.WellFormed)
    (hpfx : pfx ≠ "xml") :
    (ofBindings bindings).uri? pfx
      = ((NamespaceBinding.innermost? (written pfx) bindings).map (·.uri)).or (initial.uri? pfx) := by
  have hdeclarable : ∀ binding ∈ bindings.reverse, binding.Declarable :=
    fun binding hbinding => (h binding (List.mem_reverse.mp hbinding)).declarable
  rw [ofBindings_eq h, uri?_addAll hdeclarable hpfx, List.reverse_reverse]

theorem uri?_default (h : ∀ binding ∈ bindings, binding.WellFormed) :
    (ofBindings bindings).uri? "" = (NamespaceBinding.innermost? none bindings).map (·.uri) := by
  have hnone : initial.uri? "" = none := rfl
  rw [uri?_ofBindings h (by decide), hnone, Option.or_none]
  rfl

theorem resolvePrefix_ofBindings {pfx : String} (h : ∀ binding ∈ bindings, binding.WellFormed)
    (hpfx : IsNCName pfx) (hname : name.IsPrefixed bindings pfx) :
    ∃ uri, name.uri = some uri ∧ (ofBindings bindings).resolvePrefix pfx = .ok uri := by
  unfold QName.IsPrefixed at hname
  unfold resolvePrefix
  split at hname
  · next hxml =>
    subst hxml
    refine ⟨xmlNamespace, hname, ?_⟩
    rw [uri?_xml h]
    rfl
  · next hxml =>
    obtain ⟨binding, hbinding, huri⟩ := hname
    refine ⟨binding.uri, huri, ?_⟩
    have hmem := List.mem_of_find?_eq_some hbinding
    have hsame : binding.pfx = some pfx := by simpa using List.find?_some hbinding
    have hnonempty := (h binding hmem).nonempty (by simp [hsame])
    have hwritten : written pfx = some pfx := if_neg hpfx.ne_empty
    rw [uri?_ofBindings h hxml, hwritten, hbinding]
    simp [hpfx.ne_empty, hnonempty]

theorem elementName_lexical (h : ∀ binding ∈ bindings, binding.WellFormed) (hname : name.IsWritable)
    (hresolved : name.IsElementName bindings) :
    (ofBindings bindings).elementName name.lexical.toList = .ok name := by
  obtain ⟨pfx, localName, uri⟩ := name
  unfold elementName
  rw [QName.splitName_lexical hname]
  cases pfx with
  | none =>
    simp only [QName.IsElementName] at hresolved
    simp only
    rw [uri?_default h, hresolved]
  | some pfx =>
    obtain ⟨uri, rfl, hok⟩ := resolvePrefix_ofBindings h (hname.2 pfx rfl) hresolved
    simp only
    rw [hok]
    rfl

theorem attributeName_lexical (h : ∀ binding ∈ bindings, binding.WellFormed) (hname : name.IsWritable)
    (hresolved : name.IsAttributeName bindings) :
    (ofBindings bindings).attributeName name.lexical.toList = .ok name := by
  obtain ⟨pfx, localName, uri⟩ := name
  unfold attributeName
  rw [QName.splitName_lexical hname]
  cases pfx with
  | none =>
    simp only [QName.IsAttributeName] at hresolved
    simp only
    rw [hresolved]
  | some pfx =>
    obtain ⟨uri, rfl, hok⟩ := resolvePrefix_ofBindings h (hname.2 pfx rfl) hresolved
    simp only
    rw [hok]
    rfl

end Scope

namespace ElementStart

variable {bindings context : List NamespaceBinding} {start : ElementStart}

theorem WellFormed.inner_wellFormed (h : start.WellFormed context)
    (hbindings : ∀ binding ∈ bindings, binding.WellFormed) :
    ∀ binding ∈ start.namespaces.reverse ++ bindings, binding.WellFormed := by
  intro binding hbinding
  cases List.mem_append.mp hbinding with
  | inl hown => exact h.namespaces_wellFormed binding (List.mem_reverse.mp hown)
  | inr houter => exact hbindings binding houter

theorem WellFormed.readable (h : start.WellFormed bindings)
    (hbindings : ∀ binding ∈ bindings, binding.WellFormed) :
    start.Readable (Scope.ofBindings bindings) where
  writable := h.writable
  resolved := Scope.elementName_lexical hbindings h.writable h.resolved
  attributes_writable := h.attributes_writable
  attributes_resolved attr hattr :=
    Scope.attributeName_lexical hbindings (h.attributes_writable attr hattr)
      (h.attributes_resolved attr hattr)
  attributes_undeclaring := h.attributes_undeclaring
  attributes_distinct := h.attributes_distinct
  namespaces_declarable binding hbinding := (h.namespaces_wellFormed binding hbinding).declarable
  namespaces_distinct := h.namespaces_distinct

end ElementStart

namespace Content

variable {bindings : List NamespaceBinding} {content : Content}

theorem WellFormed.textsApart (h : content.WellFormed bindings) : content.TextsApart := by
  induction content generalizing bindings with
  | empty => trivial
  | text characters rest ih => exact ⟨h.2.1, ih h.2.2⟩
  | element start inner rest ihInner ihRest => exact ⟨ihInner h.2.1, ihRest h.2.2⟩

theorem WellFormed.readable (hbindings : ∀ binding ∈ bindings, binding.WellFormed)
    (h : content.WellFormed bindings) : content.Readable (Scope.ofBindings bindings) := by
  induction content generalizing bindings with
  | empty => trivial
  | text characters rest ih => exact ⟨h.1, ih hbindings h.2.2⟩
  | element start inner rest ihInner ihRest =>
    obtain ⟨hstart, hinner, hrest⟩ := h
    have hdeeper := hstart.inner_wellFormed hbindings
    unfold Readable
    rw [Scope.addAll_ofBindings hstart.namespaces_wellFormed]
    exact ⟨hstart.readable hdeeper, ihInner hdeeper hinner, ihRest hbindings hrest⟩

end Content

end Xml
end XmlPipeline
