import Clavis.Lib.Text
import Mathlib.Data.List.Basic

/-!
# Packages of UUIDs

What a program may rely on when it prints a UUID and reads one back, taken from the documentation of
such a package and not from its code: `UuidPackage` leaves the type of UUIDs, `String` and `Parse`
open and keeps as laws that a UUID is printed in the standard form, that this is read back, and that
nothing is read but the four documented forms.

`parse_take_line` is about a line that holds a UUID and was cut off somewhere: what is left is the
UUID, or it is no UUID at all.
-/

namespace Clavis.Lib

/-! ## The documented forms -/

/-- A hexadecimal digit, in either case. -/
def isHex (c : Char) : Bool :=
  let n := c.toNat
  (48 ≤ n && n ≤ 57) || (65 ≤ n && n ≤ 70) || (97 ≤ n && n ≤ 102)

/-- Where the standard form has its dashes. -/
def dashes : List Nat := [8, 13, 18, 23]

/-- `xxxxxxxx-xxxx-xxxx-xxxx-xxxxxxxxxxxx`. -/
def Standard (s : List Char) : Prop :=
  s.length = 36 ∧ ∀ p ∈ s.zipIdx, if p.2 ∈ dashes then p.1 = '-' else isHex p.1 = true

instance (s : List Char) : Decidable (Standard s) :=
  inferInstanceAs (Decidable (_ ∧ ∀ p ∈ s.zipIdx, _))

/-- The forms in which a UUID may be given. -/
inductive UuidForm : List Char → Prop where
  | standard {s : List Char} (h : Standard s) : UuidForm s
  /-- `urn:uuid:` in front, in either case -/
  | urn {scheme s : List Char} (hscheme : scheme.map Char.toLower = "urn:uuid:".toList)
      (h : Standard s) : UuidForm (scheme ++ s)
  /-- in braces, of which only the middle is looked at -/
  | braced {s : List Char} (first last : Char) (h : Standard s) :
      UuidForm (first :: (s ++ [last]))
  /-- the digits only -/
  | plain {s : List Char} (hlength : s.length = 32) (hdigits : ∀ c ∈ s, isHex c = true) :
      UuidForm s

theorem isSpace_of_isHex {c : Char} (h : isHex c = true) : isSpace c = false := by
  simp only [isHex, isSpace, Bool.or_eq_true, Bool.and_eq_true, decide_eq_true_eq,
    Bool.or_eq_false_iff, Bool.and_eq_false_iff, decide_eq_false_iff_not, beq_eq_false_iff_ne]
    at h ⊢
  omega

theorem Standard.char {s : List Char} (h : Standard s) {i : Nat} {c : Char}
    (hc : s[i]? = some c) : if i ∈ dashes then c = '-' else isHex c = true :=
  h.2 (c, i) (List.mem_zipIdx_iff_getElem?.mpr hc)

theorem Standard.not_isSpace {s : List Char} (h : Standard s) {c : Char} (hc : c ∈ s) :
    isSpace c = false := by
  obtain ⟨i, hi⟩ := List.mem_iff_getElem?.mp hc
  have hchar := h.char hi
  split at hchar
  · rw [hchar]
    rfl
  · exact isSpace_of_isHex hchar

/-- The first dash comes after eight digits. -/
theorem Standard.dash_mem_take {s : List Char} (h : Standard s) {n : Nat} (hn : 9 ≤ n) :
    '-' ∈ s.take n := by
  obtain ⟨c, hc⟩ : ∃ c, s[8]? = some c :=
    ⟨_, List.getElem?_eq_getElem (by rw [h.1]; decide)⟩
  have hdash : c = '-' := by
    have hchar := h.char hc
    rwa [if_pos (by decide)] at hchar
  refine List.mem_of_getElem? (i := 8) ?_
  rw [List.getElem?_take_of_lt (by omega), hc, hdash]

/-- **A proper part of the standard form has none of the forms**: it has a length that none has, or
it is as long as the digits alone and has a dash among them. -/
theorem Standard.not_form_take {s : List Char} (h : Standard s) {n : Nat} (hn : n < 36) :
    ¬ UuidForm (s.take n) := by
  have hlength : (s.take n).length = n := by
    rw [List.length_take, h.1]
    omega
  intro hform
  generalize hpart : s.take n = part at hform hlength
  cases hform with
  | standard hstd =>
    have hstdLength := hstd.1
    omega
  | @urn scheme rest hscheme hstd =>
    rw [List.length_append, hstd.1] at hlength
    omega
  | @braced rest first last hstd =>
    rw [List.length_cons, List.length_append, hstd.1] at hlength
    omega
  | plain h32 hdigits =>
    have hdash : '-' ∈ part := hpart ▸ h.dash_mem_take (by omega)
    have hhex := hdigits '-' hdash
    cases hhex

/-! ## Packages -/

/-- A type of UUIDs with `Nil`, `String` and `Parse`, which fails with a text, and what their
documentation says. -/
structure UuidPackage (U : Type) where
  nil : U
  string : U → List Char
  parse : List Char → Except String U
  standard_string : ∀ u, Standard (string u)
  parse_string : ∀ u, parse (string u) = .ok u
  form_of_parse : ∀ {s u}, parse s = .ok u → UuidForm s

namespace UuidPackage

variable {U : Type} (P : UuidPackage U)

/-- What `fmt.Fprintln` writes. -/
def line (u : U) : List Char := P.string u ++ ['\n']

/-- **A line cut off anywhere** holds the same UUID or none. -/
theorem parse_take_line {u v : U} {n : Nat} (h : P.parse (trimSpace ((P.line u).take n)) = .ok v) :
    v = u := by
  have hstd := P.standard_string u
  have hspace : ∀ c ∈ P.string u, isSpace c = false := fun c hc => hstd.not_isSpace hc
  have hwhole : P.parse (P.string u) = .ok v → v = u := by
    intro hparse
    rw [P.parse_string] at hparse
    exact (Except.ok.inj hparse).symm
  by_cases hn : n ≤ 36
  · rw [line, List.take_append_of_le_length (by rw [hstd.1]; exact hn),
      trimSpace_of_forall fun c hc => hspace c (List.mem_of_mem_take hc)] at h
    rcases Nat.lt_or_eq_of_le hn with hlt | rfl
    · exact absurd (P.form_of_parse h) (hstd.not_form_take hlt)
    · rw [List.take_of_length_le (by rw [hstd.1])] at h
      exact hwhole h
  · have hne : P.string u ≠ [] := by
      intro hnil
      have hlength := hstd.1
      rw [hnil] at hlength
      cases hlength
    have hlength : (P.line u).length ≤ n := by
      rw [line, List.length_append, hstd.1, List.length_singleton]
      omega
    rw [List.take_of_length_le hlength, line, trimSpace_concat hspace hne (by decide)] at h
    exact hwhole h

end UuidPackage

end Clavis.Lib
