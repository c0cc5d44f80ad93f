import Mathlib.Data.List.TakeWhile
import XmlPipeline.Text.Blank

/-!
This module contains what is left of a text whose blank characters are stripped from both ends: the part that
stands between two runs of them.
-/

namespace XmlPipeline
namespace Text

theorem exists_trimChars (cs : List Char) :
    ∃ lead trail, cs = lead ++ trimChars cs ++ trail ∧ ∀ c ∈ lead ++ trail, isBlank c = true := by
  let rest := cs.dropWhile isBlank
  have hlead : cs = cs.takeWhile isBlank ++ rest := List.takeWhile_append_dropWhile.symm
  have htrail : rest = trimChars cs ++ (rest.reverse.takeWhile isBlank).reverse := by
    unfold trimChars
    rw [← List.reverse_append, List.takeWhile_append_dropWhile, List.reverse_reverse]
  refine ⟨cs.takeWhile isBlank, (rest.reverse.takeWhile isBlank).reverse, ?_, ?_⟩
  · rw [List.append_assoc, ← htrail]
    exact hlead
  · intro c hc
    rw [List.mem_append, List.mem_reverse] at hc
    rcases hc with hc | hc <;> exact List.mem_takeWhile_imp hc

theorem dropWhile_isBlank {blanks cs : List Char} (hblanks : ∀ c ∈ blanks, isBlank c = true)
    (hcs : ∀ c ∈ cs.head?, isBlank c = false) : (blanks ++ cs).dropWhile isBlank = cs := by
  rw [List.dropWhile_append_of_pos hblanks]
  cases cs with
  | nil => rfl
  | cons c cs => exact List.dropWhile_cons_of_neg (by simp [hcs c rfl])

theorem trimChars_between {lead cs trail : List Char} (hlead : ∀ c ∈ lead, isBlank c = true)
    (htrail : ∀ c ∈ trail, isBlank c = true) (hcs : ∀ c ∈ cs, isBlank c = false) :
    trimChars (lead ++ cs ++ trail) = cs := by
  cases cs with
  | nil =>
    have hall : ∀ c ∈ lead ++ trail, isBlank c = true := by
      intro c hc
      rcases List.mem_append.mp hc with hc | hc
      · exact hlead c hc
      · exact htrail c hc
    have hdrop : (lead ++ trail ++ []).dropWhile isBlank = [] := dropWhile_isBlank hall (by simp)
    rw [List.append_nil] at hdrop
    simp [trimChars, hdrop]
  | cons first cs =>
    have hfirst : ∀ c ∈ (first :: cs ++ trail).head?, isBlank c = false := by
      rintro c ⟨⟩
      exact hcs first List.mem_cons_self
    have hlast : ∀ c ∈ ((first :: cs).reverse).head?, isBlank c = false := by
      intro c hc
      exact hcs c (List.mem_reverse.mp (List.mem_of_mem_head? hc))
    unfold trimChars
    rw [List.append_assoc, dropWhile_isBlank hlead hfirst, List.reverse_append,
      dropWhile_isBlank (by simpa using htrail) hlast, List.reverse_reverse]

end Text
end XmlPipeline
