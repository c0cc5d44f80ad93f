import XmlPipeline.Proofs.Path

/-!
This module contains where a path leads from a directory, if only its components are looked at. A path and
its normal form lead to the same directories, and only one normal form does.
-/

namespace XmlPipeline

/--
A directory, by the names that lead to it from the root.
-/
@[ext]
structure Directory where
  names : List String
  plain : ∀ name ∈ names, Path.IsName name

def Directory.atDepth (depth : Nat) : Directory where
  names := List.replicate depth "d"
  plain := by
    intro name hname
    obtain rfl := List.eq_of_mem_replicate hname
    exact ⟨by decide, by decide, by decide, by decide⟩

namespace Path

/--
Go one component further. The directory above the root is the root.
-/
def Component.walk (names : List String) : Component → List String
  | root => []
  | current => names
  | parent => names.dropLast
  | name text => names ++ [text]

theorem isName_of_mem_foldl_walk {parts : List Component} {names : List String}
    (hparts : ∀ text, .name text ∈ parts → IsName text) (hnames : ∀ name ∈ names, IsName name) :
    ∀ name ∈ parts.foldl Component.walk names, IsName name := by
  induction parts generalizing names with
  | nil => exact hnames
  | cons part parts ih =>
    refine ih (fun text htext => hparts text (List.mem_cons_of_mem part htext)) ?_
    cases part with
    | root => exact fun _ h => absurd h List.not_mem_nil
    | current => exact hnames
    | parent => exact fun name hname => hnames name (List.dropLast_subset names hname)
    | name text =>
      intro name hname
      obtain hname | hname := List.mem_append.mp hname
      · exact hnames name hname
      · obtain rfl := List.mem_singleton.mp hname
        exact hparts name List.mem_cons_self

def walk (path : Path) (start : Directory) : Directory where
  names := path.components.foldl Component.walk start.names
  plain := isName_of_mem_foldl_walk (fun _ => isName_of_mem_components) start.plain

/--
There is no `.` in the path, and `..` stands only at the start of a relative one.
-/
structure IsCanonical (path : Path) : Prop where
  no_current : .current ∉ path.components
  leading : ∃ (ups : Nat) (names : List String), path.components
    = (if path.isAbsolute then [.root] else List.replicate ups .parent) ++ names.map .name

section

variable {rooted : Bool} {done : List Component}

theorem Normal.exists_eq_append (h : Normal rooted done) :
    ∃ (ups : Nat) (names : List String),
      done.reverse = (if rooted then [] else List.replicate ups .parent) ++ names.map .name := by
  induction h with
  | nil => exact ⟨0, [], by simp⟩
  | @name text done plain rest ih =>
    obtain ⟨ups, names, heq⟩ := ih
    exact ⟨ups, names ++ [text], by simp [heq]⟩
  | @parent done relative bare rest ih =>
    refine ⟨done.length + 1, [], ?_⟩
    rw [List.eq_replicate_of_mem bare]
    simp [relative, List.replicate_succ']

theorem Normal.foldl_walk_follow (h : Normal rooted done) {names : List String}
    (hnames : rooted = true → names = []) {next : Component} (hnext : next ≠ .root) :
    (Path.follow rooted done next).reverse.foldl Component.walk names
      = next.walk (done.reverse.foldl Component.walk names) := by
  cases next with
  | root => exact absurd rfl hnext
  | current => rfl
  | name text =>
    unfold Path.follow
    rw [List.reverse_cons, List.foldl_append]
    rfl
  | parent =>
    cases h with
    | nil =>
      cases rooted with
      | true =>
        rw [hnames rfl]
        rfl
      | false => rfl
    | @name text before plain rest =>
      rw [List.reverse_cons, List.foldl_append]
      exact (List.dropLast_concat).symm
    | parent relative bare rest =>
      subst relative
      unfold Path.follow
      simp only [Bool.false_eq_true, ↓reduceIte]
      rw [List.reverse_cons, List.foldl_append]
      rfl

theorem Normal.foldl_walk_foldl_follow (h : Normal rooted done) {names : List String}
    (hnames : rooted = true → names = []) {parts : List Component}
    (hparts : ∀ text, .name text ∈ parts → IsName text) (hroot : .root ∉ parts) :
    (parts.foldl (Path.follow rooted) done).reverse.foldl Component.walk names
      = parts.foldl Component.walk (done.reverse.foldl Component.walk names) := by
  induction parts generalizing done with
  | nil => rfl
  | cons part parts ih =>
    obtain ⟨hpart, hrest⟩ := not_or.mp (mt List.mem_cons.mpr hroot)
    have hfollow : Normal rooted (Path.follow rooted done part) :=
      h.follow fun text htext => hparts text (htext ▸ List.mem_cons_self)
    rw [List.foldl_cons, List.foldl_cons,
      ih hfollow (fun text htext => hparts text (List.mem_cons_of_mem part htext)) hrest,
      h.foldl_walk_follow hnames (Ne.symm hpart)]

end

theorem root_notMem_map_readPiece (pieces : List String) : .root ∉ pieces.map readPiece := by
  intro h
  obtain ⟨piece, _, hpiece⟩ := List.mem_map.mp h
  unfold readPiece at hpiece
  split at hpiece
  · cases hpiece
  · split at hpiece <;> cases hpiece

theorem exists_components_eq (path : Path) :
    ∃ parts, path.components = (if path.isAbsolute then [.root] else []) ++ parts ∧ .root ∉ parts := by
  have hroot := root_notMem_map_readPiece path.pieces
  rw [components_eq]
  split
  · refine ⟨_, rfl, ?_⟩
    exact fun h => hroot (List.mem_filter.mp h).1
  · split
    · exact ⟨[], rfl, List.not_mem_nil⟩
    · next first rest heq =>
      rw [heq] at hroot
      refine ⟨_, rfl, ?_⟩
      intro h
      obtain h | h := List.mem_cons.mp h
      · exact hroot (h ▸ List.mem_cons_self)
      · exact hroot (List.mem_cons_of_mem first (List.mem_filter.mp h).1)

def folded (path : Path) : List Component :=
  path.components.foldl (follow path.isAbsolute) []

theorem normal_folded (path : Path) : Normal path.isAbsolute path.folded :=
  Normal.nil.foldl_follow fun _ => isName_of_mem_components

theorem isPlain_folded (path : Path) : ∀ part ∈ path.folded.reverse, part.IsPlain := by
  intro part hpart
  exact path.normal_folded.isPlain part (List.mem_reverse.mp hpart)

theorem isAbsolute_normalize (path : Path) : path.normalize.isAbsolute = path.isAbsolute :=
  isAbsolute_ofComponents path.isPlain_folded _

theorem components_normalize (path : Path) :
    path.normalize.components = (if path.isAbsolute then [.root] else []) ++ path.folded.reverse :=
  components_ofComponents path.isPlain_folded _

theorem isCanonical_normalize (path : Path) : path.normalize.IsCanonical := by
  obtain ⟨ups, names, heq⟩ := path.normal_folded.exists_eq_append
  have hcomponents : path.normalize.components
      = (if path.isAbsolute then [.root] else List.replicate ups .parent) ++ names.map .name := by
    rw [components_normalize, heq]
    cases path.isAbsolute <;> rfl
  constructor
  · rw [hcomponents]
    cases path.isAbsolute <;> simp
  · rw [isAbsolute_normalize]
    exact ⟨ups, names, hcomponents⟩

theorem walk_normalize (path : Path) (start : Directory) :
    path.normalize.walk start = path.walk start := by
  obtain ⟨parts, hcomponents, hroot⟩ := path.exists_components_eq
  have hparts : ∀ text, .name text ∈ parts → IsName text := by
    intro text htext
    have hmem : .name text ∈ path.components := hcomponents ▸ List.mem_append_right _ htext
    exact isName_of_mem_components hmem
  apply Directory.ext
  unfold walk
  simp only
  rw [components_normalize, folded, hcomponents]
  cases path.isAbsolute with
  | true =>
    have hnil : Normal true [] := .nil
    have hwalk := hnil.foldl_walk_foldl_follow (fun _ => rfl) hparts hroot
    exact hwalk
  | false =>
    have hnil : Normal false [] := .nil
    exact hnil.foldl_walk_foldl_follow nofun hparts hroot

/-! ### Uniqueness -/

theorem foldl_walk_names (names texts : List String) :
    (texts.map Component.name).foldl Component.walk names = names ++ texts := by
  induction texts generalizing names with
  | nil => exact (List.append_nil names).symm
  | cons text texts ih => exact (ih (names ++ [text])).trans (List.append_assoc names [text] texts)

theorem foldl_walk_parents (names : List String) (ups : Nat) :
    (List.replicate ups Component.parent).foldl Component.walk names = names.take (names.length - ups) := by
  induction ups with
  | zero => simp
  | succ ups ih =>
    rw [List.replicate_succ', List.foldl_append, ih]
    simp only [List.foldl_cons, List.foldl_nil, Component.walk]
    rw [List.dropLast_eq_take, List.take_take, List.length_take]
    congr 1
    omega

theorem names_walk {path : Path} {ups : Nat} {names : List String}
    (h : path.components
      = (if path.isAbsolute then [.root] else List.replicate ups .parent) ++ names.map .name)
    (start : Directory) :
    (path.walk start).names
      = (if path.isAbsolute then [] else start.names.take (start.names.length - ups)) ++ names := by
  unfold walk
  simp only
  rw [h, List.foldl_append, foldl_walk_names]
  cases path.isAbsolute with
  | true => rfl
  | false => exact congrArg (· ++ names) (foldl_walk_parents start.names ups)

theorem components_eq_of_walk {path other : Path} (hpath : path.IsCanonical) (hother : other.IsCanonical)
    (h : ∀ start, path.walk start = other.walk start) :
    path.isAbsolute = other.isAbsolute ∧ path.components = other.components := by
  obtain ⟨ups, names, hups⟩ := hpath.leading
  obtain ⟨otherUps, otherNames, hotherUps⟩ := hother.leading
  have hwalk : ∀ start : Directory,
      (if path.isAbsolute then [] else start.names.take (start.names.length - ups)) ++ names
        = (if other.isAbsolute then [] else start.names.take (start.names.length - otherUps))
          ++ otherNames := by
    intro start
    rw [← names_walk hups, ← names_walk hotherUps, h start]
  obtain rfl : names = otherNames := by
    have hroot := hwalk (.atDepth 0)
    simpa [Directory.atDepth] using hroot
  have hdeep : (if path.isAbsolute then 0 else otherUps + 1)
      = (if other.isAbsolute then 0 else ups + 1) := by
    have hlength := congrArg List.length (hwalk (.atDepth (ups + otherUps + 1)))
    simp only [Directory.atDepth, List.length_append, apply_ite List.length, List.length_nil,
      List.length_take, List.length_replicate] at hlength
    grind
  rw [hups, hotherUps]
  cases hrooted : path.isAbsolute with
  | true =>
    rw [hrooted] at hdeep
    cases hotherRooted : other.isAbsolute with
    | true => exact ⟨rfl, rfl⟩
    | false => simp [hotherRooted] at hdeep
  | false =>
    rw [hrooted] at hdeep
    cases hotherRooted : other.isAbsolute with
    | true => simp [hotherRooted] at hdeep
    | false =>
      rw [hotherRooted] at hdeep
      obtain rfl : otherUps = ups := Nat.succ.inj hdeep
      exact ⟨rfl, rfl⟩

theorem normalize_eq_of_components {path other : Path} (hrooted : path.isAbsolute = other.isAbsolute)
    (h : path.normalize.components = other.normalize.components) :
    path.normalize = other.normalize := by
  rw [components_normalize, components_normalize, hrooted] at h
  have hfolded : path.folded.reverse = other.folded.reverse := List.append_cancel_left h
  have hnormalize : ∀ any : Path, any.normalize = ofComponents any.isAbsolute any.folded.reverse :=
    fun _ => rfl
  rw [hnormalize, hnormalize, hfolded, hrooted]

/--
The normal form of a path has no `.`, and `..` only where a relative path starts. It is the one path of this
form that leads to the same directories.
-/
theorem normalize_canonical (path : Path) :
    path.normalize.IsCanonical
      ∧ path.normalize.normalize = path.normalize
      ∧ (∀ start, path.normalize.walk start = path.walk start)
      ∧ ∀ other : Path,
        path.normalize = other.normalize ↔ ∀ start, path.walk start = other.walk start := by
  refine ⟨path.isCanonical_normalize, path.normalize_normalize, path.walk_normalize, ?_⟩
  intro other
  constructor
  · intro h start
    rw [← path.walk_normalize, h, other.walk_normalize]
  · intro h
    have hwalk : ∀ start, path.normalize.walk start = other.normalize.walk start := by
      intro start
      rw [walk_normalize, h start, walk_normalize]
    obtain ⟨hrooted, hcomponents⟩ :=
      components_eq_of_walk path.isCanonical_normalize other.isCanonical_normalize hwalk
    rw [isAbsolute_normalize, isAbsolute_normalize] at hrooted
    exact normalize_eq_of_components hrooted hcomponents

end Path
end XmlPipeline
