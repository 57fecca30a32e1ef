/-
  Attribution.Text.Hex — hexadecimal digits.

  A digit is written in small letters and read in either case; reading gives back
  what was written (`hexValue_hexDigit`, `numeral_fourDigits`).
-/
import Attribution.Text.Basic

namespace Attribution.Text

def hexDigit (n : Nat) : Char :=
  if n < 10 then Char.ofNat (0x30 + n) else Char.ofNat (0x61 + (n - 10))

def isHexDigit (c : Char) : Bool := c.isDigit || ('a' ≤ c && c ≤ 'f') || ('A' ≤ c && c ≤ 'F')

def hexValue (c : Char) : Nat :=
  if c.isDigit then c.toNat - 0x30 else if 'a' ≤ c then c.toNat - 0x57 else c.toNat - 0x37

theorem hexValue_hexDigit {n : Nat} (h : n < 16) :
    isHexDigit (hexDigit n) = true ∧ hexValue (hexDigit n) = n := by
  have : ∀ m : Fin 16, isHexDigit (hexDigit m) = true ∧ hexValue (hexDigit m) = m := by decide
  exact this ⟨n, h⟩

def numeral (base : Nat) (digits : Text) : Nat := digits.foldl (fun n c => n * base + hexValue c) 0

/-- Four digits, the first two of which are zeros. -/
def fourDigits (n : Nat) : Text := ['0', '0', hexDigit (n / 16), hexDigit (n % 16)]

theorem numeral_fourDigits {n : Nat} (h : n < 0x100) :
    (fourDigits n).all isHexDigit = true ∧ numeral 16 (fourDigits n) = n := by
  obtain ⟨hhigh, hhighValue⟩ := hexValue_hexDigit (n := n / 16) (by omega)
  obtain ⟨hlow, hlowValue⟩ := hexValue_hexDigit (n := n % 16) (Nat.mod_lt _ (by decide))
  constructor
  · simp [fourDigits, hhigh, hlow, show isHexDigit '0' = true from rfl]
  · simp only [fourDigits, numeral, List.foldl_cons, List.foldl_nil, hhighValue, hlowValue,
      show hexValue '0' = 0 from rfl]
    omega

end Attribution.Text
