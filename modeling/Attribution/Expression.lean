/-
  Attribution.Expression — the risk of a license expression.

  An expression is rated from its text: cut at ` OR `, the most permissive piece
  decides; cut at ` AND `, the most restrictive; what stands before ` WITH ` is
  looked up by identifier. Parentheses are only taken off the ends of a piece, so
  that grouping inside an expression is not seen. A piece is shorter than the
  expression it is cut from, which is why rating ends.
-/
import Attribution.Risk

namespace Attribution

open Text

namespace Expression

def orWord : Text := " OR ".toList

def andWord : Text := " AND ".toList

def withWord : Text := " WITH ".toList

def permissiveIds : List Text :=
  ["MIT", "MIT-0", "Apache-2.0", "BSD-2-Clause", "BSD-3-Clause", "BSD-4-Clause", "ISC", "0BSD",
    "Zlib", "zlib-acknowledgement", "Libpng", "libpng-2.0", "BSL-1.0", "curl", "OpenSSL", "SSLeay",
    "Unlicense", "CC0-1.0", "WTFPL", "FTL", "IJG", "X11", "NCSA", "Python-2.0", "PSF-2.0"].map
    String.toList

def weakCopyleftIds : List Text :=
  ["LGPL-2.0", "LGPL-2.0-only", "LGPL-2.0-or-later", "LGPL-2.1", "LGPL-2.1-only",
    "LGPL-2.1-or-later", "LGPL-3.0", "LGPL-3.0-only", "LGPL-3.0-or-later", "MPL-2.0", "EPL-1.0",
    "EPL-2.0", "CDDL-1.0"].map String.toList

def strongCopyleftIds : List Text :=
  ["GPL-2.0", "GPL-2.0-only", "GPL-2.0-or-later", "GPL-3.0", "GPL-3.0-only", "GPL-3.0-or-later",
    "AGPL-3.0", "AGPL-3.0-only", "AGPL-3.0-or-later"].map String.toList

/-- The risk of one license identifier; blanks around it and every `+` after it
    are ignored. -/
def riskOfId (id : Text) : Risk :=
  let key := dropEndWhile (· == '+') (trim id)
  if key ∈ permissiveIds then .permissive
  else if key ∈ weakCopyleftIds then .weakCopyleft
  else if key ∈ strongCopyleftIds then .strongCopyleft
  else .unknown

/-- An expression without the blanks and parentheses around it. The parentheses
    are not matched, and blanks inside them are cut only once. -/
def strip (s : Text) : Text :=
  trim (dropEndWhile (· == ')') ((trim s).dropWhile (· == '(')))

def isUnknown (t : Text) : Bool := t.isEmpty || lower t == "unknown".toList

def saysProprietary (t : Text) : Bool :=
  mentions "proprietary".toList (lower t) || mentions "commercial".toList (lower t)

def baseId (t : Text) : Text := (splitOn withWord t).headD t

theorem length_strip_le (s : Text) : (strip s).length ≤ s.length := by
  refine Nat.le_trans (length_trim_le _) (Nat.le_trans (length_dropEndWhile_le _ _) ?_)
  exact Nat.le_trans (List.dropWhile_suffix _).length_le (length_trim_le s)

theorem length_piece_lt {sep s p : Text} (hsep : sep ≠ []) (h : mentions sep (strip s) = true)
    (hp : p ∈ splitOn sep (strip s)) : p.length < s.length :=
  Nat.lt_of_lt_of_le (length_lt_of_mem_splitOn hsep h hp) (length_strip_le s)

def risk (s : Text) : Risk :=
  let t := strip s
  if isUnknown t then .unknown
  else if saysProprietary t then .proprietary
  else if hor : mentions orWord t = true then
    .mostPermissive ((splitOn orWord t).attach.map fun ⟨p, hp⟩ =>
      have : p.length < s.length := length_piece_lt (by decide) hor hp
      risk p)
  else if hand : mentions andWord t = true then
    .mostRestrictive ((splitOn andWord t).attach.map fun ⟨p, hp⟩ =>
      have : p.length < s.length := length_piece_lt (by decide) hand hp
      risk p)
  else riskOfId (baseId t)
  termination_by s.length

end Expression

end Attribution
