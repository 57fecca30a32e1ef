/-
  Attribution.Path — paths as byte strings.

  (1) A path is any string of bytes. `join` puts a path behind a base: an absolute
  path stands alone, otherwise one slash comes between unless the base is empty or
  ends with one. Nothing is normalised, and joining is associative
  (`join_join`).

  (2) The last name of a path is read with blank and `.` components left out; a
  path that ends in `..` has none.
-/
import Attribution.Text.Utf8

namespace Attribution

abbrev Path := Bytes

namespace Path

def ofString (s : String) : Path := Text.encode s.toList

def slash : UInt8 := 0x2F

def here : Bytes := [0x2E]

def up : Bytes := [0x2E, 0x2E]

/-! ## (1) Joining -/

def isAbsolute (p : Path) : Bool := p.head? == some slash

def separator (base : Path) : Bytes :=
  if base.isEmpty || base.getLast? == some slash then [] else [slash]

/-- The path as seen from a base. -/
def join (base p : Path) : Path :=
  if isAbsolute p then p else base ++ separator base ++ p

theorem isAbsolute_append {p : Path} (h : p ≠ []) (q : Path) : isAbsolute (p ++ q) = isAbsolute p := by
  cases p with
  | nil => exact absurd rfl h
  | cons c p => rfl

theorem join_of_isAbsolute {p : Path} (h : isAbsolute p = true) (base : Path) : join base p = p := by
  simp [join, h]

theorem join_of_not_isAbsolute {p : Path} (h : ¬ isAbsolute p = true) (base : Path) :
    join base p = base ++ separator base ++ p := by
  simp [join, h]

theorem isAbsolute_join (a b : Path) : isAbsolute (join a b) = (isAbsolute a || isAbsolute b) := by
  by_cases hb : isAbsolute b = true
  · simp [join_of_isAbsolute hb, hb]
  · rw [join_of_not_isAbsolute hb]
    cases a with
    | nil => simp [separator, isAbsolute]
    | cons c a => rw [List.append_assoc, isAbsolute_append (by simp)]; simp [hb]

/-- A base with its separator needs no further one. -/
theorem separator_append_separator (a : Path) : separator (a ++ separator a) = [] := by
  by_cases h : a.isEmpty || a.getLast? == some slash
  · have : separator a = [] := by rw [separator, if_pos h]
    rw [this, List.append_nil, this]
  · rw [show separator a = [slash] by rw [separator, if_neg h]]
    simp [separator]

theorem separator_append {b : Path} (h : b ≠ []) (a : Path) : separator (a ++ b) = separator b := by
  cases b with
  | nil => exact absurd rfl h
  | cons c b => simp [separator]

/-- Joining twice is joining once to the joined base. -/
theorem join_join (a b c : Path) : join a (join b c) = join (join a b) c := by
  by_cases hc : isAbsolute c = true
  · simp only [join_of_isAbsolute hc]
  by_cases hb : isAbsolute b = true
  · have hbc : isAbsolute (join b c) = true := by simp [isAbsolute_join, hb]
    rw [join_of_isAbsolute hbc, join_of_isAbsolute hb]
  · have hbc : ¬ isAbsolute (join b c) = true := by simp [isAbsolute_join, hb, hc]
    rw [join_of_not_isAbsolute hbc, join_of_not_isAbsolute hc, join_of_not_isAbsolute hc,
      join_of_not_isAbsolute hb]
    by_cases h : b = []
    · have hnil : separator ([] : Path) = [] := rfl
      simp [h, hnil, separator_append_separator]
    · rw [separator_append h]
      simp

/-! ## (2) Components -/

def pieces : Path → List Bytes
  | [] => [[]]
  | b :: p =>
    if b == slash then [] :: pieces p
    else match pieces p with
      | [] => [[b]]
      | first :: rest => (b :: first) :: rest

def name? (p : Path) : Option Bytes :=
  match ((pieces p).filter fun c => c ≠ [] && c ≠ here).getLast? with
  | none => none
  | some c => if c = up then none else some c

def shown (p : Path) : Text := Text.decodeLossy p

end Path

end Attribution
