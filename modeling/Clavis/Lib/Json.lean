import Mathlib.Data.Finmap
import Mathlib.Data.Finset.Sort
import Mathlib.Data.String.Basic

/-!
# JSON values and round-tripping codecs

The part of `encoding/json` that structs of maps, pointers, strings and 64-bit integers need, at
the level of JSON values: an encoder, a decoder and the fact that decoding inverts encoding,
packaged as a `Codec`. A missing or `null` field leaves Go's zero value, `null` is the nil pointer
or the nil map, map keys are texts and are written in the order of these texts, and where a key
occurs twice the last one wins.

The decoders are for what the encoders write. On other documents `encoding/json` is more lenient:
it also matches keys that differ in case, merges a map that occurs twice, and leaves a number as it
is at `null`.
-/

namespace Clavis.Lib

/-- A JSON value. Numbers are integers: no encoder here writes another one. -/
inductive Json where
  | null
  | num (n : Int)
  | str (s : String)
  | obj (fields : List (String × Json))

/-- The value of a field of an object; the last occurrence wins. -/
def Json.field (fields : List (String × Json)) (name : String) : Option Json :=
  (fields.reverse.find? fun f => f.1 = name).map Prod.snd

/-- An encoder and a decoder of one type, with Go's zero value of that type. -/
structure Codec (α : Type) where
  zero : α
  encode : α → Json
  decode : Json → Option α
  decode_encode : ∀ a, decode (encode a) = some a

namespace Codec

/-! ## Scalars -/

def string : Codec String where
  zero := ""
  encode := .str
  decode
    | .str s => some s
    | .null => some ""
    | _ => none
  decode_encode := fun _ => rfl

def uint64 : Codec UInt64 where
  zero := 0
  encode := fun x => .num x.toNat
  decode
    | .num n => if 0 ≤ n ∧ n < 2 ^ 64 then some (UInt64.ofNat n.toNat) else none
    | .null => some 0
    | _ => none
  decode_encode := by
    intro x
    have hlt := x.toNat_lt
    simp only
    rw [if_pos (by omega), Int.toNat_natCast, UInt64.ofNat_toNat]

def int64 : Codec Int64 where
  zero := 0
  encode := fun x => .num x.toInt
  decode
    | .num n => if -2 ^ 63 ≤ n ∧ n < 2 ^ 63 then some (Int64.ofInt n) else none
    | .null => some 0
    | _ => none
  decode_encode := by
    intro x
    simp only
    rw [if_pos ⟨x.le_toInt, x.toInt_lt⟩, Int64.ofInt_toInt]

/-! ## Pointers and fields -/

/-- A pointer to a value that is never written as `null`. -/
def ptr {α : Type} (c : Codec α) (hnull : ∀ a, c.encode a ≠ .null) : Codec (Option α) where
  zero := none
  encode
    | none => .null
    | some a => c.encode a
  decode
    | .null => some none
    | j => (c.decode j).map some
  decode_encode := by
    intro a
    cases a with
    | none => rfl
    | some a =>
      have hdec := c.decode_encode a
      cases henc : c.encode a with
      | null => exact absurd henc (hnull a)
      | num n | str s | obj fields =>
        rw [henc] at hdec
        simp only [henc, hdec, Option.map_some]

/-- Decode one field of a struct, or leave it at its zero value. -/
def ofField {α : Type} (c : Codec α) (fields : List (String × Json)) (name : String) : Option α :=
  match Json.field fields name with
  | none => some c.zero
  | some j => c.decode j

theorem ofField_of_field {α : Type} (c : Codec α) {fields : List (String × Json)} {name : String}
    {a : α} (h : Json.field fields name = some (c.encode a)) : c.ofField fields name = some a := by
  rw [ofField, h]
  exact c.decode_encode a

end Codec

/-! ## Map keys -/

/-- How the keys of a map are written. -/
structure KeyCodec (κ : Type) where
  toText : κ → String
  ofText : String → Option κ
  ofText_toText : ∀ k, ofText (toText k) = some k

namespace KeyCodec

theorem toText_injective {κ : Type} (key : KeyCodec κ) : Function.Injective key.toText := by
  intro k k' h
  have hk := key.ofText_toText k
  rw [h, key.ofText_toText k'] at hk
  exact (Option.some.inj hk).symm

def string : KeyCodec String := ⟨id, some, fun _ => rfl⟩

/-- Parse an unsigned decimal number. -/
def parseDecimal (s : String) : Option Nat :=
  if s.toList ≠ [] ∧ s.toList.all Char.isDigit then some (Nat.ofDigitChars 10 s.toList 0) else none

theorem parseDecimal_repr (n : Nat) : parseDecimal n.repr = some n := by
  unfold parseDecimal
  rw [Nat.toList_repr, Nat.ofDigitChars_ten_toDigits, if_pos]
  refine ⟨Nat.toDigits_ne_nil, ?_⟩
  rw [List.all_eq_true]
  intro c hc
  exact Nat.isDigit_of_mem_toDigits (by omega) (by omega) hc

def uint64 : KeyCodec UInt64 where
  toText := fun x => x.toNat.repr
  ofText := fun s => (parseDecimal s).bind fun n =>
    if n < 2 ^ 64 then some (UInt64.ofNat n) else none
  ofText_toText := by
    intro x
    rw [parseDecimal_repr, Option.bind_some, if_pos x.toNat_lt, UInt64.ofNat_toNat]

end KeyCodec

/-! ## Maps -/

section Map

variable {κ α : Type} [DecidableEq κ] (key : KeyCodec κ) (c : Codec α)

/-- The texts of the keys of a map, in order. -/
def keyTexts (m : Finmap (fun _ : κ => α)) : List String :=
  (m.keys.map ⟨key.toText, key.toText_injective⟩).sort (· ≤ ·)

/-- The fields a map is written as. -/
def mapFields (m : Finmap (fun _ : κ => α)) (texts : List String) : List (String × Json) :=
  texts.filterMap fun s => ((key.ofText s).bind m.lookup).map fun a => (s, c.encode a)

/-- Insert one decoded field. -/
def insertField (m : Finmap (fun _ : κ => α)) (f : String × Json) :
    Option (Finmap (fun _ : κ => α)) :=
  (key.ofText f.1).bind fun k => (c.decode f.2).map fun a => m.insert k a

/-- Decode the fields of an object into a map, from the left. -/
def ofFields (m : Finmap (fun _ : κ => α)) :
    List (String × Json) → Option (Finmap (fun _ : κ => α))
  | [] => some m
  | f :: fields => (insertField key c m f).bind fun m' => ofFields m' fields

/-- Reading back the fields written for a list of present keys overrides the map read into on
exactly these keys. -/
theorem ofFields_mapFields (m : Finmap (fun _ : κ => α)) (ks : List κ) (hks : ∀ k ∈ ks, k ∈ m)
    (acc : Finmap (fun _ : κ => α)) :
    ∃ r, ofFields key c acc (mapFields key c m (ks.map key.toText)) = some r ∧
      ∀ k, r.lookup k = if k ∈ ks then m.lookup k else acc.lookup k := by
  induction ks generalizing acc with
  | nil => exact ⟨acc, rfl, by simp⟩
  | cons k ks ih =>
    obtain ⟨a, ha⟩ := Finmap.mem_iff.mp (hks k (by simp))
    obtain ⟨r, hr, hlook⟩ := ih (fun k' hk' => hks k' (by simp [hk'])) (acc.insert k a)
    refine ⟨r, ?_, ?_⟩
    · simp only [List.map_cons, mapFields, List.filterMap_cons, key.ofText_toText, Option.bind_some,
        ha, Option.map_some, ofFields, insertField, c.decode_encode]
      exact hr
    · intro k'
      rw [hlook k']
      by_cases hk' : k' = k
      · subst hk'
        simp [Finmap.lookup_insert, ha]
      · simp [hk', Finmap.lookup_insert_of_ne acc hk']

omit [DecidableEq κ] in
/-- The sorted texts are the texts of a list of keys that has exactly the keys of the map. -/
theorem exists_keys_of_keyTexts (m : Finmap (fun _ : κ => α)) :
    ∃ ks : List κ, keyTexts key m = ks.map key.toText ∧ ∀ k, k ∈ ks ↔ k ∈ m := by
  have hmem : ∀ s, s ∈ keyTexts key m ↔ ∃ k ∈ m, key.toText k = s := by
    intro s
    rw [keyTexts, Finset.mem_sort, Finset.mem_map]
    simp only [Finmap.mem_keys, Function.Embedding.coeFn_mk]
  refine ⟨(keyTexts key m).filterMap key.ofText, ?_, ?_⟩
  · have hback : ∀ s ∈ keyTexts key m, (key.ofText s).map key.toText = some s := by
      intro s hs
      obtain ⟨k, -, rfl⟩ := (hmem s).mp hs
      rw [key.ofText_toText, Option.map_some]
    rw [List.map_filterMap, List.filterMap_congr hback, List.filterMap_some]
  · intro k
    rw [List.mem_filterMap]
    constructor
    · rintro ⟨s, hs, hk⟩
      obtain ⟨k', hk', rfl⟩ := (hmem s).mp hs
      rw [key.ofText_toText] at hk
      exact Option.some.inj hk ▸ hk'
    · intro hk
      exact ⟨key.toText k, (hmem _).mpr ⟨k, hk, rfl⟩, key.ofText_toText k⟩

theorem ofFields_keyTexts (m : Finmap (fun _ : κ => α)) :
    ofFields key c ∅ (mapFields key c m (keyTexts key m)) = some m := by
  obtain ⟨ks, htexts, hks⟩ := exists_keys_of_keyTexts key m
  obtain ⟨r, hr, hlook⟩ := ofFields_mapFields key c m ks (fun k hk => (hks k).mp hk) ∅
  have hrm : r = m := by
    apply Finmap.ext_lookup
    intro k
    rw [hlook k]
    split
    · rfl
    · rename_i hk
      rw [Finmap.lookup_empty, Finmap.lookup_eq_none.mpr fun h => hk ((hks k).mpr h)]
  rw [htexts, hr, hrm]

/-- A map, `null` for the nil one. -/
def Codec.map : Codec (Option (Finmap (fun _ : κ => α))) where
  zero := none
  encode
    | none => .null
    | some m => .obj (mapFields key c m (keyTexts key m))
  decode
    | .null => some none
    | .obj fields => (ofFields key c ∅ fields).map some
    | _ => none
  decode_encode := by
    intro m
    cases m with
    | none => rfl
    | some m => simp only [ofFields_keyTexts, Option.map_some]

end Map

end Clavis.Lib
