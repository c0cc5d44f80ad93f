import Mathlib.Data.Option.Basic
import XmlPipeline.Archive.Zip
import XmlPipeline.Proofs.Text.Utf8

/-!
This module contains the reading of archives that were written. The main statement is that the entries come
back, in their order, where the numbers in the records have room for what they tell.
-/

namespace XmlPipeline
namespace Archive

/-! ### Fields -/

def fields (numbers : List (Nat × Nat)) : List UInt8 :=
  numbers.flatMap fun (width, n) => field width n

theorem readFields?_fields (numbers : List (Nat × Nat)) (rest : List UInt8) :
    readFields? (numbers.map (·.1)) (fields numbers ++ rest)
      = some (numbers.map fun (width, n) => n % Nat.pow 256 width, rest) := by
  induction numbers with
  | nil => rfl
  | cons number numbers ih =>
    simp only [List.map_cons, fields, List.flatMap_cons, List.append_assoc, readFields?,
      readField?_field]
    unfold fields at ih
    simp [ih]

def extent (widths : List Nat) : Nat :=
  widths.foldr (· + ·) 0

theorem length_fields (numbers : List (Nat × Nat)) :
    (fields numbers).length = extent (numbers.map (·.1)) := by
  induction numbers with
  | nil => rfl
  | cons number numbers ih =>
    unfold fields extent at ih ⊢
    rw [List.flatMap_cons, List.length_append, ih, field_length]
    rfl

theorem take?_append (bytes rest : List UInt8) :
    take? bytes.length (bytes ++ rest) = some (bytes, rest) := by
  simp [take?]

theorem take?_zero (bytes : List UInt8) : take? 0 bytes = some ([], bytes) :=
  take?_append [] bytes

/-! ### Stored blocks -/

theorem field_two (n : Nat) : field 2 n = [UInt8.ofNat (n % 256), UInt8.ofNat (n / 256 % 256)] := rfl

theorem toNat_field_two {n : Nat} (h : n ≤ maxStored) :
    (UInt8.ofNat (n % 256)).toNat + 256 * (UInt8.ofNat (n / 256 % 256)).toNat = n := by
  unfold maxStored at h
  simp only [UInt8.toNat_ofNat']
  omega

theorem inflate?_last {bytes : List UInt8} (h : bytes.length ≤ maxStored) :
    inflate? (storedBlock true bytes) = some bytes := by
  have hsum : bytes.length + (maxStored - bytes.length) = maxStored := by omega
  simp only [storedBlock, ↓reduceIte, field_two, List.cons_append, List.nil_append]
  rw [inflate?]
  simp only [toNat_field_two h, toNat_field_two (Nat.sub_le maxStored bytes.length), hsum]
  simp

theorem inflate?_append {bytes : List UInt8} (h : bytes.length ≤ maxStored) (more : List UInt8) :
    inflate? (storedBlock false bytes ++ more) = (inflate? more).map (bytes ++ ·) := by
  have hsum : bytes.length + (maxStored - bytes.length) = maxStored := by omega
  have hroom : ¬ (bytes ++ more).length < bytes.length := by simp
  simp only [storedBlock, Bool.false_eq_true, ↓reduceIte, field_two, List.cons_append, List.nil_append]
  rw [inflate?]
  simp only [toNat_field_two h, toNat_field_two (Nat.sub_le maxStored bytes.length), hsum, hroom]
  simp

theorem inflate?_deflate (bytes : List UInt8) : inflate? (deflate bytes) = some bytes := by
  fun_induction deflate bytes with
  | case1 bytes h => exact inflate?_last h
  | case2 bytes h ih =>
    have hlength : (bytes.take maxStored).length ≤ maxStored := List.length_take_le ..
    rw [inflate?_append hlength, ih]
    simp

/-! ### Records -/

namespace Entry

def numbers (entry : Entry) : List (Nat × Nat) :=
  [(2, 20), (2, entry.flags), (2, 8), (2, 0), (2, 0x21), (4, (crc32 entry.content).toNat),
    (4, (deflate entry.content).length), (4, entry.content.length), (2, (utf8 entry.name).length), (2, 0)]

theorem record_eq (entry : Entry) :
    entry.record
      = fields ((4, signature) :: entry.numbers) ++ (utf8 entry.name ++ deflate entry.content) := by
  simp [record, facts, fields, numbers]

end Entry

theorem place_eq (offset : Nat) (entry : Entry) :
    place offset entry
      = fields ((4, placeSignature) :: (2, 0x032E) :: entry.numbers
        ++ [(2, 0), (2, 0), (2, 0), (4, 0x81A40000), (4, offset)]) ++ utf8 entry.name := by
  simp [place, Entry.facts, fields, Entry.numbers]

variable {entry : Entry} {entries : List Entry}

theorem guard_bind {α : Type} {p : Prop} [Decidable p] (h : p) (next : Unit → Option α) :
    (guard p : Option Unit).bind next = next () := by
  have hguard : (guard p : Option Unit) = some () := if_pos h
  rw [hguard]
  rfl

theorem readContent?_record (hname : (utf8 entry.name).length < 65536) (before after : List UInt8) :
    readContent? (before ++ (entry.record ++ after)) before.length 8 (deflate entry.content).length
      = some entry.content := by
  let head := ((4, Entry.signature) :: entry.numbers).map fun (width, n) => n % Nat.pow 256 width
  have hhead : readFields? [4, 2, 2, 2, 2, 2, 4, 4, 4, 2, 2]
      (fields ((4, Entry.signature) :: entry.numbers) ++ (utf8 entry.name ++ (deflate entry.content ++ after)))
      = some (head, utf8 entry.name ++ (deflate entry.content ++ after)) :=
    readFields?_fields ((4, Entry.signature) :: entry.numbers) _
  have hsignature : head[0]? = some Entry.signature := rfl
  have hlengths : (head[9]?).getD 0 + (head[10]?).getD 0 = (utf8 entry.name).length :=
    Nat.mod_eq_of_lt hname
  unfold readContent?
  rw [List.drop_left, entry.record_eq, List.append_assoc, List.append_assoc, hhead]
  dsimp only [Option.bind_eq_bind, Option.bind_some]
  rw [guard_bind hsignature, hlengths, take?_append, Option.bind_some, take?_append, Option.bind_some]
  exact inflate?_deflate entry.content

theorem utf8_decode? (s : String) : Utf8.decode? (utf8 s) = some s := by
  simp [Utf8.decode?, utf8, Utf8.decode_encode]

theorem readEntries?_place {archive rest : List UInt8} {offset : Nat}
    (hname : (utf8 entry.name).length < 65536) (hoffset : offset < 4294967296)
    (hsize : (deflate entry.content).length < 4294967296)
    (hcontent : readContent? archive offset 8 (deflate entry.content).length = some entry.content)
    (count : Nat) :
    readEntries? archive (count + 1) (place offset entry ++ rest)
      = (readEntries? archive count rest).map (entry :: ·) := by
  have hhead := readFields?_fields ((4, placeSignature) :: (2, 0x032E) :: entry.numbers
    ++ [(2, 0), (2, 0), (2, 0), (4, 0x81A40000), (4, offset)]) (utf8 entry.name ++ rest)
  have hlength : (utf8 entry.name).length % Nat.pow 256 2 = (utf8 entry.name).length :=
    Nat.mod_eq_of_lt hname
  have hsignature : placeSignature % Nat.pow 256 4 = placeSignature := rfl
  have hmethod : 8 % Nat.pow 256 2 = 8 := rfl
  have hextra : 0 % Nat.pow 256 2 + 0 % Nat.pow 256 2 = 0 := rfl
  have hstart : offset % Nat.pow 256 4 = offset := Nat.mod_eq_of_lt hoffset
  have hdeflated : (deflate entry.content).length % Nat.pow 256 4 = (deflate entry.content).length :=
    Nat.mod_eq_of_lt hsize
  have hcrc : (crc32 entry.content).toNat % Nat.pow 256 4 = (crc32 entry.content).toNat :=
    Nat.mod_eq_of_lt (crc32 entry.content).toNat_lt
  simp only [Entry.numbers, List.cons_append, List.nil_append, List.map_cons, List.map_nil] at hhead
  rw [readEntries?, place_eq, List.append_assoc]
  dsimp only [Entry.numbers, List.cons_append, List.nil_append]
  rw [hhead]
  dsimp only [Option.bind_eq_bind]
  rw [guard_bind hsignature, hlength, take?_append, Option.bind_some, hextra, take?_zero, Option.bind_some,
    utf8_decode?, Option.bind_some, hstart, hmethod, hdeflated, hcontent, Option.bind_some,
    guard_bind hcrc.symm, Option.map_eq_bind]
  rfl

/--
The numbers in the records of the entries and in the directory have room for what they tell.
-/
structure Fit (entries : List Entry) : Prop where
  count : entries.length < 65536
  names : ∀ entry ∈ entries, (utf8 entry.name).length < 65536
  size : (entries.flatMap Entry.record).length < 4294967296

theorem readEntries?_directory (before : List UInt8) {after more : List UInt8}
    (hnames : ∀ entry ∈ entries, (utf8 entry.name).length < 65536)
    (hsize : before.length + (entries.flatMap Entry.record).length < 4294967296) :
    readEntries? (before ++ (entries.flatMap Entry.record ++ after)) entries.length
        (directory before.length entries ++ more)
      = some entries := by
  induction entries generalizing before with
  | nil => rfl
  | cons entry entries ih =>
    obtain ⟨hname, hrest⟩ := List.forall_mem_cons.mp hnames
    rw [List.flatMap_cons, List.length_append] at hsize
    have hdeflated : (deflate entry.content).length ≤ entry.record.length := by
      rw [Entry.record, List.length_append]
      omega
    have hcontent := readContent?_record hname before (entries.flatMap Entry.record ++ after)
    have hentries := ih (before ++ entry.record) hrest (by rw [List.length_append]; omega)
    rw [List.length_append, List.append_assoc] at hentries
    rw [List.length_cons, directory, List.append_assoc, List.flatMap_cons, List.append_assoc,
      readEntries?_place hname (by omega) (by omega) hcontent, hentries]
    rfl

/-! ### The end of an archive -/

theorem length_of_readField? {width n : Nat} {bytes rest : List UInt8}
    (h : readField? width bytes = some (n, rest)) : bytes.length = width + rest.length := by
  induction width generalizing n bytes with
  | zero =>
    obtain ⟨-, rfl⟩ := Prod.mk.inj (Option.some.inj h)
    exact (Nat.zero_add _).symm
  | succ width ih =>
    cases bytes with
    | nil => cases h
    | cons first bytes =>
      obtain ⟨⟨m, rest'⟩, hfield, hsame⟩ := Option.map_eq_some_iff.mp h
      obtain ⟨-, rfl⟩ := Prod.mk.inj hsame
      rw [List.length_cons, ih hfield]
      omega

theorem length_of_readFields? {widths ns : List Nat} {bytes rest : List UInt8}
    (h : readFields? widths bytes = some (ns, rest)) : bytes.length = extent widths + rest.length := by
  induction widths generalizing ns bytes with
  | nil =>
    obtain ⟨-, rfl⟩ := Prod.mk.inj (Option.some.inj h)
    exact (Nat.zero_add _).symm
  | cons width widths ih =>
    obtain ⟨⟨n, between⟩, hfield, hmore⟩ := Option.bind_eq_some_iff.mp h
    obtain ⟨⟨more, last⟩, hfields, hsame⟩ := Option.bind_eq_some_iff.mp hmore
    obtain ⟨-, rfl⟩ := Prod.mk.inj (Option.some.inj hsame)
    have hextent : extent (width :: widths) = width + extent widths := rfl
    rw [length_of_readField? hfield, ih hfields, hextent]
    omega

theorem readEnd?_of_short {bytes : List UInt8} (h : bytes.length < 22) : readEnd? bytes = none := by
  unfold readEnd?
  split
  · next hfields =>
    have hextent : extent [4, 2, 2, 2, 2, 4, 4, 2] = 22 := rfl
    have hlength := length_of_readFields? hfields
    rw [hextent] at hlength
    omega
  · rfl

theorem findEnd?_of_short {bytes : List UInt8} (h : bytes.length < 22) : findEnd? bytes = none := by
  induction bytes with
  | nil => rfl
  | cons b bytes ih =>
    rw [List.length_cons] at h
    rw [findEnd?, ih (by omega), readEnd?_of_short (by simpa using h)]
    rfl

theorem findEnd?_append {bytes : List UInt8} {found : Nat × Nat} (h : findEnd? bytes = some found)
    (before : List UInt8) : findEnd? (before ++ bytes) = some found := by
  induction before with
  | nil => exact h
  | cons b before ih =>
    rw [List.cons_append, findEnd?, ih]
    rfl

def ending (count size offset : Nat) : List UInt8 :=
  fields [(4, endSignature), (2, 0), (2, 0), (2, count), (2, count), (4, size), (4, offset), (2, 0)]

theorem findEnd?_ending {count offset : Nat} (hcount : count < 65536) (hoffset : offset < 4294967296)
    (size : Nat) : findEnd? (ending count size offset) = some (count, offset) := by
  have hfields := readFields?_fields
    [(4, endSignature), (2, 0), (2, 0), (2, count), (2, count), (4, size), (4, offset), (2, 0)] []
  have hlength : (ending count size offset).length = 22 := length_fields _
  have hread : readEnd? (ending count size offset) = some (count, offset) := by
    have hsame : count % Nat.pow 256 2 = count := Nat.mod_eq_of_lt hcount
    have hstart : offset % Nat.pow 256 4 = offset := Nat.mod_eq_of_lt hoffset
    unfold readEnd? ending
    rw [List.append_nil] at hfields
    simp only [List.map_cons, List.map_nil] at hfields
    rw [hfields]
    simp [endSignature, hsame, hstart]
  obtain ⟨b, bytes, hbytes⟩ := List.exists_cons_of_length_eq_add_one hlength
  rw [hbytes] at hlength hread ⊢
  rw [List.length_cons] at hlength
  rw [findEnd?, findEnd?_of_short (by omega), hread]
  rfl

theorem read?_write (h : Fit entries) : read? (write entries) = some entries := by
  have hwrite : write entries
      = entries.flatMap Entry.record ++ (directory 0 entries
        ++ ending entries.length (directory 0 entries).length (entries.flatMap Entry.record).length) := by
    simp [write, ending, fields]
  have hend := findEnd?_append (findEnd?_ending h.count h.size (directory 0 entries).length)
    (entries.flatMap Entry.record ++ directory 0 entries)
  rw [List.append_assoc] at hend
  unfold read?
  rw [hwrite, hend]
  simp only [Option.bind_eq_bind, Option.bind_some]
  rw [List.drop_left]
  exact readEntries?_directory [] h.names (by simpa using h.size)

end Archive
end XmlPipeline
