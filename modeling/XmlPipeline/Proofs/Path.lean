import XmlPipeline.Path

/-!
This module contains the normal form of paths. Its components are names, after `..` components at the start of
a relative path, and to read it and normalize it once more gives the same path.
-/

namespace XmlPipeline

theorem separator_notMem_piece {α : Type} [BEq α] [LawfulBEq α] {separator : α} {list piece : List α}
    (h : piece ∈ list.splitOn separator) : separator ∉ piece := by
  induction list generalizing piece with
  | nil =>
    obtain rfl : piece = [] := by simpa using h
    exact List.not_mem_nil
  | cons first rest ih =>
    rw [List.splitOn_cons_eq_if_modifyHead] at h
    cases hrest : rest.splitOn separator with
    | nil => exact absurd hrest (List.splitOn_ne_nil separator rest)
    | cons head pieces =>
      rw [hrest] at h ih
      split at h
      · obtain rfl | h := List.mem_cons.mp h
        · exact List.not_mem_nil
        · exact ih h
      · next hfirst =>
        obtain rfl | h := List.mem_cons.mp h
        · intro hmem
          obtain rfl | hmem := List.mem_cons.mp hmem
          · exact hfirst BEq.rfl
          · exact ih List.mem_cons_self hmem
        · exact ih (List.mem_cons_of_mem head h)

namespace Path

structure IsName (text : String) : Prop where
  nonempty : text ≠ ""
  not_current : text ≠ "."
  not_parent : text ≠ ".."
  no_separator : '/' ∉ text.toList

/--
The components of a path in normal form, the last one first.
-/
inductive Normal (rooted : Bool) : List Component → Prop where
  | nil : Normal rooted []
  | name {text : String} {done : List Component} (plain : IsName text) (rest : Normal rooted done) :
    Normal rooted (.name text :: done)
  | parent {done : List Component} (relative : rooted = false) (bare : ∀ part ∈ done, part = .parent)
    (rest : Normal rooted done) : Normal rooted (.parent :: done)

theorem Normal.follow {rooted : Bool} {done : List Component} (h : Normal rooted done)
    {next : Component} (hnext : ∀ text, next = .name text → IsName text) :
    Normal rooted (follow rooted done next) := by
  cases next with
  | root => exact h
  | current => exact h
  | name text => exact .name (hnext text rfl) h
  | parent =>
    cases h with
    | nil =>
      cases rooted with
      | true => exact .nil
      | false => exact .parent rfl nofun .nil
    | name plain rest => exact rest
    | parent relative bare rest =>
      subst relative
      exact .parent rfl (List.forall_mem_cons.mpr ⟨rfl, bare⟩) (.parent rfl bare rest)

theorem Normal.foldl_follow {rooted : Bool} {done : List Component} (h : Normal rooted done)
    {parts : List Component} (hparts : ∀ text, .name text ∈ parts → IsName text) :
    Normal rooted (parts.foldl (Path.follow rooted) done) := by
  induction parts generalizing done with
  | nil => exact h
  | cons part parts ih =>
    have hpart : ∀ text, part = .name text → IsName text := by
      rintro text rfl
      exact hparts text List.mem_cons_self
    exact ih (h.follow hpart) fun text htext => hparts text (List.mem_cons_of_mem part htext)

theorem Normal.foldl_follow_reverse {rooted : Bool} {done : List Component} (h : Normal rooted done) :
    done.reverse.foldl (Path.follow rooted) [] = done := by
  induction h with
  | nil => rfl
  | name plain rest ih =>
    rw [List.reverse_cons, List.foldl_append, ih]
    rfl
  | @parent done relative bare rest ih =>
    rw [List.reverse_cons, List.foldl_append, ih, relative]
    cases done with
    | nil => rfl
    | cons part done =>
      obtain rfl := bare part List.mem_cons_self
      rfl

def readPiece (piece : String) : Component :=
  if piece == "." then .current else if piece == ".." then .parent else .name piece

theorem components_eq (path : Path) :
    path.components
      = if path.isAbsolute then
          .root :: (path.pieces.map readPiece).filter (· ≠ .current)
        else
          match path.pieces.map readPiece with
          | [] => []
          | first :: rest => first :: rest.filter (· ≠ .current) :=
  rfl

theorem mem_pieces {path : Path} {piece : String} (h : piece ∈ path.pieces) :
    piece ≠ "" ∧ '/' ∉ piece.toList := by
  unfold pieces at h
  obtain ⟨chars, hchars, rfl⟩ := List.mem_map.mp h
  obtain ⟨hsplit, hnonempty⟩ := List.mem_filter.mp hchars
  constructor
  · intro hempty
    simp [String.ofList_eq_empty_iff.mp hempty] at hnonempty
  · rw [String.toList_ofList]
    exact separator_notMem_piece hsplit

theorem isName_of_mem_components {path : Path} {text : String} (h : .name text ∈ path.components) :
    IsName text := by
  have hread : .name text ∈ path.pieces.map readPiece := by
    rw [components_eq] at h
    split at h
    · exact (List.mem_filter.mp ((List.mem_cons.mp h).resolve_left nofun)).1
    · split at h
      · cases h
      · next first rest heq =>
        rw [heq]
        obtain hfirst | hrest := List.mem_cons.mp h
        · exact hfirst ▸ List.mem_cons_self
        · exact List.mem_cons_of_mem first (List.mem_filter.mp hrest).1
  obtain ⟨piece, hpiece, hname⟩ := List.mem_map.mp hread
  obtain ⟨hnonempty, hseparator⟩ := mem_pieces hpiece
  unfold readPiece at hname
  split at hname
  · cases hname
  · next hcurrent =>
    split at hname
    · cases hname
    · next hparent =>
      obtain rfl := Component.name.inj hname
      exact ⟨hnonempty, by simpa using hcurrent, by simpa using hparent, hseparator⟩

structure Component.IsPlain (part : Component) : Prop where
  readable : readPiece part.text = part
  counts : part ≠ .current
  nonempty : part.text ≠ ""
  no_separator : '/' ∉ part.text.toList

theorem IsName.isPlain {text : String} (h : IsName text) : (Component.name text).IsPlain where
  readable := by
    unfold readPiece Component.text
    rw [if_neg (by simpa using h.not_current), if_neg (by simpa using h.not_parent)]
  counts := nofun
  nonempty := h.nonempty
  no_separator := h.no_separator

theorem Normal.isPlain {rooted : Bool} {done : List Component} (h : Normal rooted done) :
    ∀ part ∈ done, part.IsPlain := by
  induction h with
  | nil => nofun
  | name plain rest ih => exact List.forall_mem_cons.mpr ⟨plain.isPlain, ih⟩
  | parent relative bare rest ih =>
    exact List.forall_mem_cons.mpr ⟨⟨rfl, nofun, by decide, by decide⟩, ih⟩

theorem toList_ofComponents (rooted : Bool) (parts : List Component) :
    (ofComponents rooted parts).text.toList
      = (if rooted then ['/'] else []) ++ ['/'].intercalate (parts.map (·.text.toList)) := by
  unfold ofComponents
  rw [String.toList_append, String.toList_intercalate, List.map_map]
  cases rooted <;> rfl

section

variable {parts : List Component} (hparts : ∀ part ∈ parts, part.IsPlain) (rooted : Bool)

include hparts

theorem isAbsolute_ofComponents : (ofComponents rooted parts).isAbsolute = rooted := by
  unfold isAbsolute
  rw [toList_ofComponents]
  cases rooted with
  | true => rfl
  | false =>
    cases parts with
    | nil => rfl
    | cons first rest =>
      have hfirst := hparts first List.mem_cons_self
      cases hchars : first.text.toList with
      | nil => exact absurd (String.toList_eq_nil_iff.mp hchars) hfirst.nonempty
      | cons char chars =>
        have hchar : char ≠ '/' := by
          rintro rfl
          exact hfirst.no_separator (hchars ▸ List.mem_cons_self)
        cases rest <;> simp [List.intercalate, hchars, hchar]

theorem pieces_ofComponents :
    (ofComponents rooted parts).pieces = parts.map Component.text := by
  have hsplit : ((['/'].intercalate (parts.map (·.text.toList))).splitOn '/').filter (!·.isEmpty)
      = parts.map (·.text.toList) := by
    cases parts with
    | nil => rfl
    | cons first rest =>
      rw [List.splitOn_intercalate, List.filter_eq_self]
      · intro chars hchars
        obtain ⟨part, hpart, rfl⟩ := List.mem_map.mp hchars
        simpa using (hparts part hpart).nonempty
      · intro chars hchars
        obtain ⟨part, hpart, rfl⟩ := List.mem_map.mp hchars
        exact (hparts part hpart).no_separator
      · exact List.cons_ne_nil _ _
  have htexts : (parts.map (·.text.toList)).map String.ofList = parts.map Component.text := by
    rw [List.map_map]
    apply List.map_congr_left
    intro part _
    exact String.ofList_toList
  unfold pieces
  rw [toList_ofComponents]
  cases rooted with
  | true =>
    simp only [↓reduceIte, List.singleton_append]
    rw [List.splitOn_cons_eq_if_modifyHead, if_pos BEq.rfl, List.filter_cons_of_neg (by simp),
      hsplit, htexts]
  | false =>
    simp only [Bool.false_eq_true, ↓reduceIte, List.nil_append]
    rw [hsplit, htexts]

theorem components_ofComponents :
    (ofComponents rooted parts).components = (if rooted then [.root] else []) ++ parts := by
  have hread : (parts.map Component.text).map readPiece = parts := by
    rw [List.map_map]
    exact (List.map_congr_left fun part hpart => (hparts part hpart).readable).trans (List.map_id' parts)
  have hcounts : ∀ part ∈ parts, decide (part ≠ .current) = true := by
    intro part hpart
    exact decide_eq_true (hparts part hpart).counts
  rw [components_eq, isAbsolute_ofComponents hparts, pieces_ofComponents hparts, hread]
  cases rooted with
  | true =>
    rw [if_pos rfl, List.filter_eq_self.mpr hcounts]
    rfl
  | false =>
    cases parts with
    | nil => rfl
    | cons first rest =>
      obtain ⟨_, hrest⟩ := List.forall_mem_cons.mp hcounts
      simp only [Bool.false_eq_true, ↓reduceIte, List.nil_append]
      rw [List.filter_eq_self.mpr hrest]

end

theorem normalize_normalize (path : Path) : path.normalize.normalize = path.normalize := by
  let rooted := path.isAbsolute
  let done := path.components.foldl (follow rooted) []
  have hnormal : Normal rooted done := Normal.nil.foldl_follow fun _ => isName_of_mem_components
  have hplain : ∀ part ∈ done.reverse, part.IsPlain := by
    intro part hpart
    exact hnormal.isPlain part (List.mem_reverse.mp hpart)
  have hfollow : ((if rooted then [Component.root] else []) ++ done.reverse).foldl (follow rooted) []
      = done := by
    have hroot : (if rooted then [Component.root] else []).foldl (follow rooted) [] = [] := by
      cases rooted <;> rfl
    rw [List.foldl_append, hroot]
    exact hnormal.foldl_follow_reverse
  have hnormalize : path.normalize = ofComponents rooted done.reverse := rfl
  rw [hnormalize, normalize, isAbsolute_ofComponents hplain, components_ofComponents hplain, hfollow]

end Path
end XmlPipeline
