import Mathlib.Data.List.DropRight

/-!
# Text

`strings.TrimSpace` of Go, on the characters of a text.
-/

namespace Clavis.Lib

/-- `unicode.IsSpace`. -/
def isSpace (c : Char) : Bool :=
  let n := c.toNat
  (9 ≤ n && n ≤ 13) || n == 0x20 || n == 0x85 || n == 0xA0 || n == 0x1680 ||
    (0x2000 ≤ n && n ≤ 0x200A) || n == 0x2028 || n == 0x2029 || n == 0x202F || n == 0x205F ||
    n == 0x3000

/-- `strings.TrimSpace`. -/
def trimSpace (text : List Char) : List Char := (text.dropWhile isSpace).rdropWhile isSpace

theorem dropWhile_isSpace {text : List Char} (h : ∀ c ∈ text, isSpace c = false)
    (rest : List Char) (hne : text ≠ []) : (text ++ rest).dropWhile isSpace = text ++ rest := by
  cases text with
  | nil => exact absurd rfl hne
  | cons c text =>
    rw [List.cons_append, List.dropWhile_cons_of_neg]
    rw [h c List.mem_cons_self]
    exact Bool.false_ne_true

/-- A text without space is left as it is. -/
theorem trimSpace_of_forall {text : List Char} (h : ∀ c ∈ text, isSpace c = false) :
    trimSpace text = text := by
  have hdrop : text.dropWhile isSpace = text := by
    cases text with
    | nil => rfl
    | cons c text =>
      have hkeep := dropWhile_isSpace h [] (List.cons_ne_nil c text)
      rwa [List.append_nil] at hkeep
  rw [trimSpace, hdrop]
  cases text using List.reverseRecOn with
  | nil => rfl
  | append_singleton text c =>
    rw [List.rdropWhile_concat_neg]
    rw [h c (List.mem_append_right text (List.mem_singleton.mpr rfl))]
    exact Bool.false_ne_true

/-- Space at the end of it goes. -/
theorem trimSpace_concat {text : List Char} (h : ∀ c ∈ text, isSpace c = false) (hne : text ≠ [])
    {c : Char} (hc : isSpace c = true) : trimSpace (text ++ [c]) = text := by
  have hkeep := trimSpace_of_forall h
  rw [trimSpace] at hkeep ⊢
  rw [dropWhile_isSpace h [c] hne, List.rdropWhile_concat_pos _ _ _ hc]
  have hdrop := dropWhile_isSpace h [] hne
  rw [List.append_nil] at hdrop
  rwa [hdrop] at hkeep

end Clavis.Lib
