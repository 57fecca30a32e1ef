/-
  Attribution.Text.Basic — texts as lists of characters.

  (1) White space is the Unicode property White_Space; `trim` cuts it from both
  ends of a text.

  (2) `splitOn` cuts a text at every occurrence of a separator, read from the
  left. Nothing is lost: joining the pieces by the separator gives the text back
  (`intercalate_splitOn`), so each piece of a text that mentions the separator is
  shorter than the text (`length_lt_of_mem_splitOn`).
-/

namespace Attribution

abbrev Text := List Char

namespace Text

/-! ## (1) White space -/

/-- The characters of the Unicode property White_Space. -/
def isBlank (c : Char) : Bool :=
  (0x9 ≤ c.toNat && c.toNat ≤ 0xD) || c.toNat == 0x20 || c.toNat == 0x85 || c.toNat == 0xA0 ||
    c.toNat == 0x1680 || (0x2000 ≤ c.toNat && c.toNat ≤ 0x200A) || c.toNat == 0x2028 ||
    c.toNat == 0x2029 || c.toNat == 0x202F || c.toNat == 0x205F || c.toNat == 0x3000

def dropEndWhile (p : Char → Bool) (s : Text) : Text :=
  (s.reverse.dropWhile p).reverse

def trimStart (s : Text) : Text := s.dropWhile isBlank

def trimEnd (s : Text) : Text := dropEndWhile isBlank s

def trim (s : Text) : Text := trimEnd (trimStart s)

/-- ASCII capitals become small letters; nothing else changes. -/
def lower (s : Text) : Text := s.map Char.toLower

/-! ## (2) Words inside a text -/

def mentions (word : Text) : Text → Bool
  | [] => word.isEmpty
  | c :: s => word.isPrefixOf (c :: s) || mentions word s

def consHead (c : Char) : List Text → List Text
  | [] => [[c]]
  | p :: ps => (c :: p) :: ps

/-- The pieces of a text whose first `skip` characters belong to a separator
    that has been read already. -/
def splitFrom (sep : Text) : Nat → Text → List Text
  | _, [] => [[]]
  | skip + 1, _ :: s => splitFrom sep skip s
  | 0, c :: s =>
    if sep.isPrefixOf (c :: s) then [] :: splitFrom sep (sep.length - 1) s
    else consHead c (splitFrom sep 0 s)

/-- The pieces between the occurrences of a separator that is not empty. -/
def splitOn (sep s : Text) : List Text := splitFrom sep 0 s

def ofNat (n : Nat) : Text := Nat.toDigits 10 n

/-- Blanks on the right up to a length counted in characters; a longer text
    stays as it is. -/
def padRight (width : Nat) (s : Text) : Text := s ++ List.replicate (width - s.length) ' '

def padLeft (width : Nat) (s : Text) : Text := List.replicate (width - s.length) ' ' ++ s

/-! ### Nothing is lost by splitting -/

theorem consHead_ne_nil (c : Char) (ps : List Text) : consHead c ps ≠ [] := by
  cases ps <;> simp [consHead]

theorem splitFrom_ne_nil (sep : Text) (skip : Nat) (s : Text) : splitFrom sep skip s ≠ [] := by
  fun_induction splitFrom sep skip s with
  | case1 => simp
  | case2 skip c s ih => exact ih
  | case3 c s h ih => simp
  | case4 c s h ih => exact consHead_ne_nil _ _

theorem intercalate_nil_cons (sep : Text) {ps : List Text} (h : ps ≠ []) :
    List.intercalate sep ([] :: ps) = sep ++ List.intercalate sep ps := by
  cases ps with
  | nil => exact absurd rfl h
  | cons p ps => simp [List.intercalate_cons_cons]

theorem intercalate_consHead (sep : Text) (c : Char) {ps : List Text} (h : ps ≠ []) :
    List.intercalate sep (consHead c ps) = c :: List.intercalate sep ps := by
  match ps, h with
  | [p], _ => simp [consHead]
  | p :: q :: ps, _ => simp [consHead, List.intercalate_cons_cons]

theorem intercalate_splitFrom {sep : Text} (hsep : sep ≠ []) (skip : Nat) (s : Text) :
    List.intercalate sep (splitFrom sep skip s) = s.drop skip := by
  fun_induction splitFrom sep skip s with
  | case1 => simp
  | case2 skip c s ih => simpa using ih
  | case3 c s h ih =>
    rw [intercalate_nil_cons sep (splitFrom_ne_nil _ _ _), ih]
    obtain ⟨rest, hrest⟩ := List.isPrefixOf_iff_prefix.mp h
    cases sep with
    | nil => exact absurd rfl hsep
    | cons d sep =>
      simp only [List.cons_append, List.cons.injEq] at hrest
      simp [← hrest.2, hrest.1]
  | case4 c s h ih => rw [intercalate_consHead sep c (splitFrom_ne_nil _ _ _), ih]; simp

/-- The pieces joined by the separator are the text. -/
theorem intercalate_splitOn {sep : Text} (hsep : sep ≠ []) (s : Text) :
    List.intercalate sep (splitOn sep s) = s :=
  intercalate_splitFrom hsep 0 s

theorem length_le_intercalate (sep : Text) {p : Text} :
    ∀ {ps : List Text}, p ∈ ps → p.length ≤ (List.intercalate sep ps).length
  | [q], h => by simp at h; simp [h]
  | q :: r :: ps, h => by
    have step : (List.intercalate sep (q :: r :: ps)).length =
        q.length + sep.length + (List.intercalate sep (r :: ps)).length := by
      simp [List.intercalate_cons_cons, Nat.add_assoc]
    rcases List.mem_cons.mp h with rfl | h
    · omega
    · have := length_le_intercalate sep h; omega

theorem length_lt_intercalate {sep : Text} (hsep : sep ≠ []) {p : Text} :
    ∀ {ps : List Text}, 2 ≤ ps.length → p ∈ ps → p.length < (List.intercalate sep ps).length
  | q :: r :: ps, _, h => by
    have hpos : 0 < sep.length := List.length_pos_iff.mpr hsep
    have step : (List.intercalate sep (q :: r :: ps)).length =
        q.length + sep.length + (List.intercalate sep (r :: ps)).length := by
      simp [List.intercalate_cons_cons, Nat.add_assoc]
    rcases List.mem_cons.mp h with rfl | h
    · omega
    · have := length_le_intercalate sep h; omega

theorem length_splitFrom_of_mentions {sep : Text} (hsep : sep ≠ []) :
    ∀ {s : Text}, mentions sep s = true → 2 ≤ (splitFrom sep 0 s).length
  | [], h => by simp [mentions, hsep] at h
  | c :: s, h => by
    rw [splitFrom]
    split
    · have := List.length_pos_iff.mpr (splitFrom_ne_nil sep (sep.length - 1) s)
      simp; omega
    · next hno =>
      simp only [mentions, hno, Bool.false_or] at h
      have := length_splitFrom_of_mentions hsep h
      match hs : splitFrom sep 0 s with
      | [] => exact absurd hs (splitFrom_ne_nil _ _ _)
      | p :: ps => rw [hs] at this; simpa [consHead] using this

/-- Each piece of a text that mentions the separator is shorter than the text. -/
theorem length_lt_of_mem_splitOn {sep s p : Text} (hsep : sep ≠ []) (h : mentions sep s = true)
    (hp : p ∈ splitOn sep s) : p.length < s.length := by
  have := length_lt_intercalate hsep (length_splitFrom_of_mentions hsep h) hp
  rwa [show List.intercalate sep (splitFrom sep 0 s) = s from intercalate_splitOn hsep s] at this

theorem length_dropEndWhile_le (p : Char → Bool) (s : Text) : (dropEndWhile p s).length ≤ s.length := by
  have := (List.dropWhile_suffix p (l := s.reverse)).length_le
  simpa [dropEndWhile] using this

theorem length_trim_le (s : Text) : (trim s).length ≤ s.length :=
  Nat.le_trans (length_dropEndWhile_le _ _) (List.dropWhile_suffix _).length_le

end Text

end Attribution
