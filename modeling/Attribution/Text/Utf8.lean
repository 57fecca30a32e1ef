/-
  Attribution.Text.Utf8 — texts as bytes, and back.

  A character is written in one to four bytes. Reading goes from the left: where
  no character can be read, the longest start of one that is cut off (at least
  one byte) is a fault. `decode?` refuses a fault, `decodeLossy` puts U+FFFD in
  its place.
-/
import Attribution.Text.Basic

namespace Attribution

abbrev Bytes := List UInt8

namespace Text

/-! ## Writing -/

/-- The bytes of one character: its number in groups of six bits, the first
    group marked with the count of bytes and each later one with `0x80`. -/
def encodeChar (c : Char) : Bytes :=
  let n := c.toNat
  if n < 0x80 then [UInt8.ofNat n]
  else if n < 0x800 then [UInt8.ofNat (0xC0 + n / 64), UInt8.ofNat (0x80 + n % 64)]
  else if n < 0x10000 then
    [UInt8.ofNat (0xE0 + n / 4096), UInt8.ofNat (0x80 + n / 64 % 64), UInt8.ofNat (0x80 + n % 64)]
  else
    [UInt8.ofNat (0xF0 + n / 262144), UInt8.ofNat (0x80 + n / 4096 % 64),
      UInt8.ofNat (0x80 + n / 64 % 64), UInt8.ofNat (0x80 + n % 64)]

def encode (s : Text) : Bytes := s.flatMap encodeChar

def size : Text → Nat
  | [] => 0
  | c :: s => c.utf8Size + size s

/-! ## Reading -/

/-- What a first byte promises: how many bytes follow, the bits it carries
    itself, and the least and the greatest value of the second byte. -/
structure Lead where
  owed : Nat
  bits : Nat
  low : Nat
  high : Nat

/-- The first bytes of characters of more than one byte. The ranges of the second
    byte leave out spellings that are too long, surrogates and numbers above
    0x10FFFF. -/
def lead? (n : Nat) : Option Lead :=
  if 0xC2 ≤ n ∧ n ≤ 0xDF then some ⟨1, n - 0xC0, 0x80, 0xBF⟩
  else if n = 0xE0 then some ⟨2, 0, 0xA0, 0xBF⟩
  else if n = 0xED then some ⟨2, 0xD, 0x80, 0x9F⟩
  else if 0xE1 ≤ n ∧ n ≤ 0xEF then some ⟨2, n - 0xE0, 0x80, 0xBF⟩
  else if n = 0xF0 then some ⟨3, 0, 0x90, 0xBF⟩
  else if 0xF1 ≤ n ∧ n ≤ 0xF3 then some ⟨3, n - 0xF0, 0x80, 0xBF⟩
  else if n = 0xF4 then some ⟨3, 4, 0x80, 0x8F⟩
  else none

/-- Reads the bytes a first byte owes: the character, or `none` at a byte out of
    range, and how many bytes were used. -/
def readTail : (owed low high bits used : Nat) → Bytes → Option Char × Nat
  | 0, _, _, bits, used, _ => (some (Char.ofNat bits), used)
  | _ + 1, _, _, _, used, [] => (none, used)
  | owed + 1, low, high, bits, used, b :: s =>
    if low ≤ b.toNat ∧ b.toNat ≤ high then
      readTail owed 0x80 0xBF (bits * 64 + (b.toNat - 0x80)) (used + 1) s
    else (none, used)

/-- The character at the start of `b :: s`, or `none` at a fault, and how many
    bytes of `s` it takes. -/
def readChar (b : UInt8) (s : Bytes) : Option Char × Nat :=
  if b.toNat < 0x80 then (some (Char.ofNat b.toNat), 0)
  else match lead? b.toNat with
    | none => (none, 0)
    | some l => readTail l.owed l.low l.high l.bits 0 s

/-- The characters and faults of a byte string whose first `skip` bytes have been
    read already. -/
def readFrom : (skip : Nat) → Bytes → List (Option Char)
  | _, [] => []
  | skip + 1, _ :: s => readFrom skip s
  | 0, b :: s => (readChar b s).1 :: readFrom (readChar b s).2 s

def scan (s : Bytes) : List (Option Char) := readFrom 0 s

def decode? (s : Bytes) : Option Text :=
  let found := scan s
  if found.all Option.isSome then some (found.filterMap id) else none

/-- The text with U+FFFD in place of every fault. -/
def decodeLossy (s : Bytes) : Text := (scan s).map (·.getD '\uFFFD')

@[simp] theorem encode_nil : encode [] = [] := rfl

@[simp] theorem encode_cons (c : Char) (s : Text) : encode (c :: s) = encodeChar c ++ encode s := rfl

@[simp] theorem encode_append (s t : Text) : encode (s ++ t) = encode s ++ encode t := by
  simp [encode]

@[simp] theorem size_nil : size [] = 0 := rfl

@[simp] theorem size_cons (c : Char) (s : Text) : size (c :: s) = c.utf8Size + size s := rfl

@[simp] theorem size_append (s t : Text) : size (s ++ t) = size s + size t := by
  induction s with
  | nil => simp
  | cons c s ih => rw [List.cons_append, size_cons, size_cons, ih, Nat.add_assoc]

theorem utf8Size_eq (c : Char) : c.utf8Size =
    if c.toNat < 0x80 then 1 else if c.toNat < 0x800 then 2 else if c.toNat < 0x10000 then 3 else 4 := by
  have hval : ∀ n : UInt32, c.val ≤ n ↔ c.toNat < n.toNat + 1 := fun n =>
    UInt32.le_iff_toNat_le.trans Nat.lt_succ_iff.symm
  simp only [Char.utf8Size, hval]
  rfl

theorem length_encodeChar (c : Char) : (encodeChar c).length = c.utf8Size := by
  simp only [encodeChar, utf8Size_eq, apply_ite List.length]
  rfl

/-- A text is written with as many bytes as are counted for it. -/
theorem length_encode (s : Text) : (encode s).length = size s := by
  induction s with
  | nil => rfl
  | cons c s ih => rw [encode_cons, List.length_append, length_encodeChar, ih, size_cons]

/-- A text that decodes strictly decodes lossily to the same text. -/
theorem decodeLossy_of_decode? {s : Bytes} {t : Text} (h : decode? s = some t) : decodeLossy s = t := by
  unfold decode? at h
  simp only at h
  split at h
  · next hall =>
    cases h
    unfold decodeLossy
    revert hall
    induction scan s with
    | nil => intro _; rfl
    | cons x xs ih =>
      intro hall
      simp only [List.all_cons, Bool.and_eq_true] at hall
      match x, hall with
      | some c, hall => simpa using ih hall.2
  · cases h

end Text

end Attribution
