/-
  Attribution.Proofs.Encoding — what is read as a text is written back as it was.

  (1) The first byte of a character says how many bytes follow and bounds the second
  (`lead?_cases`); so a character that is read is written with the bytes that were read
  (`encodeChar_of_readChar`).

  (2) A byte string that is a text is the bytes of that text (`encode_of_decode?`).

  (3) The bytes of a character are read as that character (`readChar_encodeChar`), so the
  byte strings that are texts are exactly the bytes of texts (`decode?_eq_some_iff`).
-/
import Attribution.Text.Utf8

namespace Attribution.Text

/-! ## (1) One character -/

theorem toNat_ofNat {n : Nat} (h : n.isValidChar) : (Char.ofNat n).toNat = n := by
  rw [Char.ofNat, dif_pos h]
  rfl

theorem ofNat_eq {n : Nat} {b : UInt8} (h : n = b.toNat) : UInt8.ofNat n = b := by
  rw [h, UInt8.ofNat_toNat]

/-- What a first byte says, by the count of the bytes that follow. -/
theorem lead?_cases {n : Nat} {l : Lead} (h : lead? n = some l) :
    (l.owed = 1 ∧ 0xC2 ≤ n ∧ n ≤ 0xDF ∧ l.bits = n - 0xC0 ∧ l.low = 0x80 ∧ l.high = 0xBF) ∨
      (l.owed = 2 ∧ 0xE0 ≤ n ∧ n ≤ 0xEF ∧ l.bits = n - 0xE0 ∧ 0x80 ≤ l.low ∧ l.high ≤ 0xBF ∧
        (n = 0xE0 → l.low = 0xA0) ∧ (n = 0xED → l.high = 0x9F)) ∨
      (l.owed = 3 ∧ 0xF0 ≤ n ∧ n ≤ 0xF4 ∧ l.bits = n - 0xF0 ∧ 0x80 ≤ l.low ∧ l.high ≤ 0xBF ∧
        (n = 0xF0 → l.low = 0x90) ∧ (n = 0xF4 → l.high = 0x8F)) := by
  unfold lead? at h
  by_cases h1 : 0xC2 ≤ n ∧ n ≤ 0xDF
  · rw [if_pos h1] at h
    cases h
    exact Or.inl ⟨rfl, h1.1, h1.2, rfl, rfl, rfl⟩
  by_cases h2 : n = 0xE0
  · rw [if_neg h1, if_pos h2] at h
    cases h
    exact Or.inr (Or.inl ⟨rfl, by omega, by omega, by rw [h2], by decide, by decide, fun _ => rfl, by omega⟩)
  by_cases h3 : n = 0xED
  · rw [if_neg h1, if_neg h2, if_pos h3] at h
    cases h
    exact Or.inr (Or.inl ⟨rfl, by omega, by omega, by rw [h3], by decide, by decide, by omega, fun _ => rfl⟩)
  by_cases h4 : 0xE1 ≤ n ∧ n ≤ 0xEF
  · rw [if_neg h1, if_neg h2, if_neg h3, if_pos h4] at h
    cases h
    exact Or.inr (Or.inl ⟨rfl, by omega, by omega, rfl, Nat.le_refl _, Nat.le_refl _, by omega, by omega⟩)
  by_cases h5 : n = 0xF0
  · rw [if_neg h1, if_neg h2, if_neg h3, if_neg h4, if_pos h5] at h
    cases h
    exact Or.inr (Or.inr ⟨rfl, by omega, by omega, by rw [h5], by decide, by decide, fun _ => rfl, by omega⟩)
  by_cases h6 : 0xF1 ≤ n ∧ n ≤ 0xF3
  · rw [if_neg h1, if_neg h2, if_neg h3, if_neg h4, if_neg h5, if_pos h6] at h
    cases h
    exact Or.inr (Or.inr ⟨rfl, by omega, by omega, rfl, Nat.le_refl _, Nat.le_refl _, by omega, by omega⟩)
  by_cases h7 : n = 0xF4
  · rw [if_neg h1, if_neg h2, if_neg h3, if_neg h4, if_neg h5, if_neg h6, if_pos h7] at h
    cases h
    exact Or.inr (Or.inr ⟨rfl, by omega, by omega, by rw [h7], by decide, by decide, by omega, fun _ => rfl⟩)
  rw [if_neg h1, if_neg h2, if_neg h3, if_neg h4, if_neg h5, if_neg h6, if_neg h7] at h
  cases h

theorem readTail_succ {owed low high bits used k : Nat} {s : Bytes} {c : Char}
    (h : readTail (owed + 1) low high bits used s = (some c, k)) :
    ∃ b rest, s = b :: rest ∧ low ≤ b.toNat ∧ b.toNat ≤ high ∧
      readTail owed 0x80 0xBF (bits * 64 + (b.toNat - 0x80)) (used + 1) rest = (some c, k) := by
  cases s with
  | nil => cases h
  | cons b rest =>
    rw [readTail] at h
    by_cases hb : low ≤ b.toNat ∧ b.toNat ≤ high
    · rw [if_pos hb] at h
      exact ⟨b, rest, rfl, hb.1, hb.2, h⟩
    · rw [if_neg hb] at h
      cases h

theorem readTail_zero {low high bits used k : Nat} {s : Bytes} {c : Char}
    (h : readTail 0 low high bits used s = (some c, k)) : c = Char.ofNat bits ∧ k = used := by
  rw [readTail] at h
  cases h
  exact ⟨rfl, rfl⟩

/-! ### Characters by their count of bytes -/

theorem encodeChar_two {n : Nat} (h1 : 0x80 ≤ n) (h2 : n < 0x800) :
    encodeChar (Char.ofNat n) = [UInt8.ofNat (0xC0 + n / 64), UInt8.ofNat (0x80 + n % 64)] := by
  rw [encodeChar, toNat_ofNat (Or.inl (by omega))]
  exact (if_neg (Nat.not_lt.mpr h1)).trans (if_pos h2)

theorem encodeChar_three {n : Nat} (h : n.isValidChar) (h1 : 0x800 ≤ n) (h2 : n < 0x10000) :
    encodeChar (Char.ofNat n) =
      [UInt8.ofNat (0xE0 + n / 4096), UInt8.ofNat (0x80 + n / 64 % 64), UInt8.ofNat (0x80 + n % 64)] := by
  rw [encodeChar, toNat_ofNat h]
  exact (if_neg (by omega)).trans ((if_neg (Nat.not_lt.mpr h1)).trans (if_pos h2))

theorem encodeChar_four {n : Nat} (h : n.isValidChar) (h1 : 0x10000 ≤ n) :
    encodeChar (Char.ofNat n) =
      [UInt8.ofNat (0xF0 + n / 262144), UInt8.ofNat (0x80 + n / 4096 % 64), UInt8.ofNat (0x80 + n / 64 % 64),
        UInt8.ofNat (0x80 + n % 64)] := by
  rw [encodeChar, toNat_ofNat h]
  exact (if_neg (by omega)).trans ((if_neg (by omega)).trans (if_neg (Nat.not_lt.mpr h1)))

/-- A character is written with the bytes that it was read from. -/
theorem encodeChar_of_readChar {b : UInt8} {s : Bytes} {c : Char} {k : Nat} (h : readChar b s = (some c, k)) :
    encodeChar c = b :: s.take k := by
  unfold readChar at h
  by_cases hb : b.toNat < 0x80
  · rw [if_pos hb] at h
    cases h
    have hn := toNat_ofNat (n := b.toNat) (Or.inl (by omega))
    rw [encodeChar, hn, if_pos hb, UInt8.ofNat_toNat]
    rfl
  rw [if_neg hb] at h
  cases hl : lead? b.toNat with
  | none =>
    rw [hl] at h
    cases h
  | some l =>
    rw [hl] at h
    simp only at h
    rcases lead?_cases hl with ⟨ho, hb1, hb2, hbits, hlow, hhigh⟩ | ⟨ho, hb1, hb2, hbits, hlow, hhigh, h1, h2⟩ |
      ⟨ho, hb1, hb2, hbits, hlow, hhigh, h1, h2⟩
    · rw [ho, hbits, hlow, hhigh] at h
      obtain ⟨x, s, rfl, hx1, hx2, h⟩ := readTail_succ h
      obtain ⟨hc, hk⟩ := readTail_zero h
      rw [hc, hk, encodeChar_two (by omega) (by omega), ofNat_eq (b := b) (by omega), ofNat_eq (b := x) (by omega)]
      rfl
    · rw [ho, hbits] at h
      obtain ⟨x, s, rfl, hx1, hx2, h⟩ := readTail_succ h
      obtain ⟨y, s, rfl, hy1, hy2, h⟩ := readTail_succ h
      obtain ⟨hc, hk⟩ := readTail_zero h
      rw [hc, hk, encodeChar_three (by unfold Nat.isValidChar; omega) (by omega) (by omega), ofNat_eq (b := b) (by omega),
        ofNat_eq (b := x) (by omega), ofNat_eq (b := y) (by omega)]
      rfl
    · rw [ho, hbits] at h
      obtain ⟨x, s, rfl, hx1, hx2, h⟩ := readTail_succ h
      obtain ⟨y, s, rfl, hy1, hy2, h⟩ := readTail_succ h
      obtain ⟨z, s, rfl, hz1, hz2, h⟩ := readTail_succ h
      obtain ⟨hc, hk⟩ := readTail_zero h
      rw [hc, hk, encodeChar_four (by unfold Nat.isValidChar; omega) (by omega), ofNat_eq (b := b) (by omega),
        ofNat_eq (b := x) (by omega), ofNat_eq (b := y) (by omega), ofNat_eq (b := z) (by omega)]
      rfl

/-! ## (2) Texts -/

theorem readFrom_eq_drop (skip : Nat) (s : Bytes) : readFrom skip s = readFrom 0 (s.drop skip) := by
  induction skip generalizing s with
  | zero => rfl
  | succ skip ih =>
    cases s with
    | nil => rfl
    | cons b s => exact ih s

theorem encode_of_scan {s : Bytes} (h : (scan s).all Option.isSome = true) :
    encode ((scan s).filterMap id) = s := by
  match s with
  | [] => rfl
  | b :: s =>
    have hscan : scan (b :: s) = (readChar b s).1 :: scan (s.drop (readChar b s).2) := by
      rw [scan, readFrom, readFrom_eq_drop]
      rfl
    rw [hscan] at h ⊢
    rw [List.all_cons, Bool.and_eq_true] at h
    obtain ⟨c, hc⟩ := Option.isSome_iff_exists.mp h.1
    have hchar : encodeChar c = b :: s.take (readChar b s).2 := encodeChar_of_readChar (Prod.ext hc rfl)
    have ih := encode_of_scan h.2
    rw [hc, List.filterMap_cons_some (f := id) (b := c) rfl, encode_cons, hchar, ih, List.cons_append,
      List.take_append_drop]
  termination_by s.length
  decreasing_by simp only [List.length_drop, List.length_cons]; omega

/-- A byte string that is a text is the bytes of that text. -/
theorem encode_of_decode? {s : Bytes} {u : Text} (h : decode? s = some u) : encode u = s := by
  unfold decode? at h
  simp only at h
  by_cases hall : (scan s).all Option.isSome = true
  · rw [if_pos hall] at h
    cases h
    exact encode_of_scan hall
  · rw [if_neg hall] at h
    cases h

/-! ## (3) What is written can be read -/

theorem toNat_uint8 {n : Nat} (h : n < 256) : (UInt8.ofNat n).toNat = n := by
  rw [UInt8.toNat_ofNat']
  omega

/-- A first byte of three leaves the range of the second byte open except at both ends. -/
theorem lead?_three {k x : Nat} (hk : k < 16) (hlow : 0x80 ≤ x) (hhigh : x ≤ 0xBF) (h0 : k = 0 → 0xA0 ≤ x)
    (h13 : k = 13 → x ≤ 0x9F) : ∃ low high, lead? (0xE0 + k) = some ⟨2, k, low, high⟩ ∧ low ≤ x ∧ x ≤ high := by
  unfold lead?
  rw [if_neg (by omega)]
  by_cases hk0 : k = 0
  · exact ⟨0xA0, 0xBF, by simp [hk0], h0 hk0, hhigh⟩
  by_cases hk13 : k = 13
  · exact ⟨0x80, 0x9F, by simp [hk13], hlow, h13 hk13⟩
  · refine ⟨0x80, 0xBF, ?_, hlow, hhigh⟩
    rw [if_neg (by omega), if_neg (by omega), if_pos (by omega), Nat.add_sub_cancel_left]

/-- A first byte of four leaves the range of the second byte open except at both ends. -/
theorem lead?_four {k x : Nat} (hk : k < 5) (hlow : 0x80 ≤ x) (hhigh : x ≤ 0xBF) (h0 : k = 0 → 0x90 ≤ x)
    (h4 : k = 4 → x ≤ 0x8F) : ∃ low high, lead? (0xF0 + k) = some ⟨3, k, low, high⟩ ∧ low ≤ x ∧ x ≤ high := by
  unfold lead?
  rw [if_neg (by omega), if_neg (by omega), if_neg (by omega), if_neg (by omega)]
  by_cases hk0 : k = 0
  · exact ⟨0x90, 0xBF, by simp [hk0], h0 hk0, hhigh⟩
  by_cases hk4 : k = 4
  · exact ⟨0x80, 0x8F, by simp [hk4], hlow, h4 hk4⟩
  · refine ⟨0x80, 0xBF, ?_, hlow, hhigh⟩
    rw [if_neg (by omega), if_pos (by omega), Nat.add_sub_cancel_left]

theorem readTail_cons {owed low high bits used x : Nat} (s : Bytes) (hx : x < 256) (hlow : low ≤ x) (hhigh : x ≤ high) :
    readTail (owed + 1) low high bits used (UInt8.ofNat x :: s) =
      readTail owed 0x80 0xBF (bits * 64 + (x - 0x80)) (used + 1) s := by
  rw [readTail, toNat_uint8 hx, if_pos ⟨hlow, hhigh⟩]

theorem readChar_of_lead {x : Nat} {l : Lead} (hx : x < 256) (h80 : 0x80 ≤ x) (hl : lead? x = some l) (s : Bytes) :
    readChar (UInt8.ofNat x) s = readTail l.owed l.low l.high l.bits 0 s := by
  rw [readChar, toNat_uint8 hx, if_neg (by omega), hl]

theorem readChar_of_ascii {x : Nat} (hx : x < 0x80) (s : Bytes) :
    readChar (UInt8.ofNat x) s = (some (Char.ofNat x), 0) := by
  rw [readChar, toNat_uint8 (by omega), if_pos hx]

/-- The bytes of a character are read as the character, whatever follows. -/
theorem readChar_encodeChar (c : Char) :
    ∃ b rest, encodeChar c = b :: rest ∧ ∀ s, readChar b (rest ++ s) = (some c, rest.length) := by
  have hc : Char.ofNat c.toNat = c := Char.ofNat_toNat c
  have hvalid : c.toNat < 0xD800 ∨ 0xDFFF < c.toNat ∧ c.toNat < 0x110000 := c.valid
  rw [encodeChar]
  generalize c.toNat = n at hc hvalid
  by_cases h1 : n < 0x80
  · refine ⟨_, _, if_pos h1, fun s => ?_⟩
    rw [List.nil_append, readChar_of_ascii h1, hc]
    rfl
  by_cases h2 : n < 0x800
  · refine ⟨_, _, (if_neg h1).trans (if_pos h2), fun s => ?_⟩
    have hl : lead? (0xC0 + n / 64) = some ⟨1, n / 64, 0x80, 0xBF⟩ := by
      rw [lead?, if_pos (by omega), Nat.add_sub_cancel_left]
    have hn : n / 64 * 64 + (0x80 + n % 64 - 0x80) = n := by omega
    rw [readChar_of_lead (by omega) (by omega) hl, List.singleton_append,
      readTail_cons s (by omega) (show 0x80 ≤ 0x80 + n % 64 by omega) (show 0x80 + n % 64 ≤ 0xBF by omega), hn,
      readTail, hc]
    rfl
  by_cases h3 : n < 0x10000
  · refine ⟨_, _, (if_neg h1).trans ((if_neg h2).trans (if_pos h3)), fun s => ?_⟩
    obtain ⟨low, high, hl, hlow, hhigh⟩ : ∃ low high, lead? (0xE0 + n / 4096) = some ⟨2, n / 4096, low, high⟩ ∧
        low ≤ 0x80 + n / 64 % 64 ∧ 0x80 + n / 64 % 64 ≤ high :=
      lead?_three (by omega) (by omega) (by omega) (by omega) (by omega)
    have hn : (n / 4096 * 64 + (0x80 + n / 64 % 64 - 0x80)) * 64 + (0x80 + n % 64 - 0x80) = n := by omega
    rw [readChar_of_lead (by omega) (by omega) hl, List.cons_append, readTail_cons _ (by omega) hlow hhigh,
      List.singleton_append, readTail_cons s (by omega) (by omega) (by omega), hn, readTail, hc]
    rfl
  · refine ⟨_, _, (if_neg h1).trans ((if_neg h2).trans (if_neg h3)), fun s => ?_⟩
    obtain ⟨low, high, hl, hlow, hhigh⟩ : ∃ low high, lead? (0xF0 + n / 262144) = some ⟨3, n / 262144, low, high⟩ ∧
        low ≤ 0x80 + n / 4096 % 64 ∧ 0x80 + n / 4096 % 64 ≤ high :=
      lead?_four (by omega) (by omega) (by omega) (by omega) (by omega)
    have hn : ((n / 262144 * 64 + (0x80 + n / 4096 % 64 - 0x80)) * 64 + (0x80 + n / 64 % 64 - 0x80)) * 64 +
        (0x80 + n % 64 - 0x80) = n := by omega
    rw [readChar_of_lead (by omega) (by omega) hl, List.cons_append, readTail_cons _ (by omega) hlow hhigh,
      List.cons_append, readTail_cons _ (by omega) (by omega) (by omega), List.singleton_append,
      readTail_cons s (by omega) (by omega) (by omega), hn, readTail, hc]
    rfl

theorem scan_encode (s : Text) : scan (encode s) = s.map some := by
  induction s with
  | nil => rfl
  | cons c s ih =>
    obtain ⟨b, rest, hchar, hread⟩ := readChar_encodeChar c
    rw [encode_cons, hchar, List.cons_append, scan, readFrom, hread, readFrom_eq_drop, List.drop_left, List.map_cons,
      ← ih, scan]

theorem decode?_encode (s : Text) : decode? (encode s) = some s := by
  simp [decode?, scan_encode, Function.comp_def]

/-- The byte strings that are texts are the bytes of texts. -/
theorem decode?_eq_some_iff {b : Bytes} {s : Text} : decode? b = some s ↔ encode s = b := by
  constructor
  · exact encode_of_decode?
  · rintro rfl
    exact decode?_encode s

end Attribution.Text
