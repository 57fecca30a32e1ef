/-
  Attribution.Pattern — patterns over texts, matched by tables.

  A pattern has alternatives in an order: `many` prefers more, `few` prefers less,
  `alt` prefers its first. A match is wanted together with what comes after it, and
  the first alternative that lets the rest succeed counts.

  For a text of n characters a *prospect* lists, for the n + 1 positions from the
  start to the end, what is found by going on from there (`none`: nothing). `before`
  turns the prospect of what comes after a pattern into the prospect of the pattern
  followed by it. Every position is computed once from the positions after it, so
  that a text is searched in a number of steps proportional to its length.
-/
import Attribution.Text.Basic

namespace Attribution

inductive Pattern where
  | empty
  /-- One character of a kind. -/
  | one (kind : Char → Bool)
  /-- As many characters of a kind as possible. -/
  | many (kind : Char → Bool)
  /-- As few characters of a kind as possible. -/
  | few (kind : Char → Bool)
  /-- At the start of the text or after a newline. -/
  | lineStart
  /-- At the end of the text or in front of a newline. -/
  | lineEnd
  | seq (first second : Pattern)
  | alt (first second : Pattern)

/-- For each position of a text, what is found from there. -/
abbrev Prospect (β : Type) := List (Option β)

namespace Pattern

variable {β : Type}

def opt (p : Pattern) : Pattern := alt p empty

def seqAll : List Pattern → Pattern
  | [] => empty
  | [p] => p
  | p :: ps => seq p (seqAll ps)

/-- A prospect that keeps only the positions marked. -/
def keep (marks : List Bool) (k : Prospect β) : Prospect β :=
  List.zipWith (fun b found => if b then found else none) marks k

def lineStarts (s : Text) : List Bool := true :: s.map (· == '\n')

def lineEnds (s : Text) : List Bool := s.map (· == '\n') ++ [true]

def beforeOne (kind : Char → Bool) : Text → Prospect β → Prospect β
  | c :: s, _ :: k => (if kind c then k.headD none else none) :: beforeOne kind s k
  | _, _ => [none]

def beforeMany (kind : Char → Bool) : Text → Prospect β → Prospect β
  | c :: s, found :: k =>
    let later := beforeMany kind s k
    ((if kind c then later.headD none else none) <|> found) :: later
  | _, k => k

def beforeFew (kind : Char → Bool) : Text → Prospect β → Prospect β
  | c :: s, found :: k =>
    let later := beforeFew kind s k
    (found <|> (if kind c then later.headD none else none)) :: later
  | _, k => k

/-- The prospect of the pattern followed by what `k` finds. -/
def before (s : Text) : Pattern → Prospect β → Prospect β
  | empty, k => k
  | one kind, k => beforeOne kind s k
  | many kind, k => beforeMany kind s k
  | few kind, k => beforeFew kind s k
  | lineStart, k => keep (lineStarts s) k
  | lineEnd, k => keep (lineEnds s) k
  | seq p q, k =>
    let later := before s q k
    if later.any Option.isSome then before s p later else later
  | alt p q, k => List.zipWith (· <|> ·) (before s p k) (before s q k)

def anywhere (s : Text) : Prospect Unit := List.replicate (s.length + 1) (some ())

/-- The pattern matches some part of the text. -/
def foundIn (p : Pattern) (s : Text) : Bool := (p.before s (anywhere s)).any Option.isSome

def suffixes : Text → List Text
  | [] => [[]]
  | c :: s => (c :: s) :: suffixes s

def mark (s : Text) (k : Prospect β) : Prospect (Text × β) :=
  List.zipWith (fun rest found => found.map (rest, ·)) (suffixes s) k

/-- The part matched by `inner` in the first match of `opening`, `inner` and
    `closing` one after the other: at the earliest position, and there by the first
    alternatives that succeed. -/
def capture? (opening inner closing : Pattern) (s : Text) : Option Text :=
  let ends := mark s (closing.before s (anywhere s))
  let parts := mark s (inner.before s ends)
  ((opening.before s parts).findSome? id).map fun (start, stop, _) =>
    start.take (start.length - stop.length)

end Pattern

end Attribution
