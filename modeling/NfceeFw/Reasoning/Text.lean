import Mathlib.Data.List.Basic

/-!
# Text — bytes printed in hexadecimal, and the lines of a log

What a reader of a log gets back from it: the bytes from their digits, and the lines that each began
with a newline.
-/

namespace NfceeFw.Reasoning

/-! ## 1. Hexadecimal -/

-- A byte as two digits, in upper case.
def hexDigits (b : UInt8) : List Char :=
  [(b.toNat / 16).digitChar.toUpper, (b.toNat % 16).digitChar.toUpper]

def hexValue (c : Char) : Option Nat :=
  if '0' ≤ c ∧ c ≤ '9' then some (c.toNat - '0'.toNat)
  else if 'A' ≤ c ∧ c ≤ 'F' then some (c.toNat - 'A'.toNat + 10)
  else none

/-- Two digits for each byte. -/
def readHex : List Char → Option (List UInt8)
  | [] => some []
  | [_] => none
  | hi :: lo :: rest => do
    let h ← hexValue hi
    let l ← hexValue lo
    let bytes ← readHex rest
    return .ofNat (16 * h + l) :: bytes

theorem hexValue_digit (n : Fin 16) : hexValue (n.val.digitChar.toUpper) = some n.val := by
  revert n
  decide

theorem readHex_byte (b : UInt8) (rest : List Char) :
    readHex (hexDigits b ++ rest) = (readHex rest).map (b :: ·) := by
  have hhi := hexValue_digit ⟨b.toNat / 16, by have := b.toNat_lt; omega⟩
  have hlo := hexValue_digit ⟨b.toNat % 16, Nat.mod_lt _ (by decide)⟩
  show (hexValue _).bind _ = _
  rw [hhi, Option.bind_some]
  show (hexValue _).bind _ = _
  rw [hlo, Option.bind_some]
  show (readHex rest).bind (fun bytes =>
    some (UInt8.ofNat (16 * (b.toNat / 16) + b.toNat % 16) :: bytes)) = _
  rw [Nat.div_add_mod, UInt8.ofNat_toNat]
  cases readHex rest <;> rfl

/-- What is printed two digits a byte reads back. -/
theorem readHex_bytes (bytes : List UInt8) :
    readHex (bytes.flatMap hexDigits) = some bytes := by
  induction bytes with
  | nil => rfl
  | cons b bytes ih => rw [List.flatMap_cons, readHex_byte, ih, Option.map_some]

theorem newline_not_hex (bytes : List UInt8) : '\n' ∉ bytes.flatMap hexDigits := by
  intro hmem
  obtain ⟨b, -, hb⟩ := List.mem_flatMap.mp hmem
  have hdigit : ∀ n : Fin 16, n.val.digitChar.toUpper ≠ '\n' := by decide
  rcases List.mem_pair.mp hb with hhi | hlo
  · exact hdigit ⟨b.toNat / 16, by have := b.toNat_lt; omega⟩ hhi.symm
  · exact hdigit ⟨b.toNat % 16, Nat.mod_lt _ (by decide)⟩ hlo.symm

/-! ## 2. Lines -/

-- What follows each newline.
def linesOf (text : List Char) : List (List Char) := (text.splitOn '\n').drop 1

theorem flatMap_intercalate (first : List Char) (ls : List (List Char)) :
    ['\n'].intercalate (first :: ls) = first ++ ls.flatMap ('\n' :: ·) := by
  induction ls generalizing first with
  | nil => simp
  | cons l ls ih =>
    rw [List.intercalate_cons_cons, ih, List.flatMap_cons]
    simp

/-- Lines without a newline of their own are found again. -/
theorem linesOf_flatMap {ls : List (List Char)} (h : ∀ l ∈ ls, '\n' ∉ l) :
    linesOf (ls.flatMap ('\n' :: ·)) = ls := by
  have hall : ∀ l ∈ [] :: ls, '\n' ∉ l := List.forall_mem_cons.mpr ⟨List.not_mem_nil, h⟩
  unfold linesOf
  rw [← List.nil_append (ls.flatMap _), ← flatMap_intercalate,
    List.splitOn_intercalate '\n' hall nofun]
  rfl

end NfceeFw.Reasoning
