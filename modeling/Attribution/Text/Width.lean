/-
  Attribution.Text.Width — how many columns a text takes on a terminal.

  The width is the sum of the widths of the characters, except where several make
  one picture: an emoji with a selector or a skin tone, emoji joined by U+200D, and
  a carriage return with its newline. The text is read from its end, since what
  stands to the right of a character decides whether it is part of a picture that
  has been counted.
-/
import Attribution.Text.Basic
import Attribution.Text.WidthTable

namespace Attribution.Text

def inRanges (ranges : List (Nat × Nat)) (c : Char) : Bool :=
  ranges.any fun (low, high) => low ≤ c.toNat && c.toNat ≤ high

def charWidth (c : Char) : Nat :=
  if c.toNat ≤ 0xA0 || c.toNat == 0xAD then 1
  else if c.toNat == 0x17D8 then 3
  else if c.toNat == 0x17A4 then 2
  else if inRanges WidthTable.zero c then 0
  else if inRanges WidthTable.wide c then 2
  else 1

def isPicture (c : Char) : Bool := 0xA0 < c.toNat && inRanges WidthTable.pictureEmoji c

def isEmoji (c : Char) : Bool := isPicture c || inRanges WidthTable.textEmoji c

def isTone (c : Char) : Bool := 0x1F3FB ≤ c.toNat && c.toNat ≤ 0x1F3FF

/-- What stands to the right of a character, as far as its width depends on it. -/
inductive Right where
  | plain
  | newline
  /-- A selector for text. -/
  | textSelector
  /-- A selector for pictures; `joined` if a joiner and a picture follow it. -/
  | pictureSelector (joined : Bool)
  | tone
  | picture
  /-- A joiner with a picture behind it. -/
  | joiner
  deriving DecidableEq

/-- The columns that a character adds, and what it is to its left neighbour, where
    no picture goes on. -/
def widthAlone (c : Char) : Nat × Right :=
  if c == '\n' then (1, .newline)
  else if c == '\uFE0F' then (0, .pictureSelector false)
  else if c == '\uFE0E' then (0, .textSelector)
  else if isTone c then (2, .tone)
  else if isPicture c then (2, .picture)
  else (charWidth c, .plain)

/-- The same after a joiner: the picture behind it has been counted. -/
def widthJoined (c : Char) : Nat × Right :=
  if c == '\uFE0F' then (0, .pictureSelector true)
  else if isTone c then (0, .tone)
  else if isPicture c then (0, .picture)
  else widthAlone c

def widthBefore (c : Char) : Right → Nat × Right
  | .plain => widthAlone c
  | .newline => if c == '\r' then (0, .plain) else widthAlone c
  | .textSelector => if inRanges WidthTable.twoStyles c then (1, .plain) else widthAlone c
  | .pictureSelector joined =>
    if isEmoji c then (if joined then 0 else 2, .picture)
    else if joined then widthJoined c
    else widthAlone c
  | .tone =>
    if inRanges WidthTable.toned c then (0, .picture)
    else if c == '\u200D' then (0, .joiner)
    else widthAlone c
  | .picture => if c == '\u200D' then (0, .joiner) else widthAlone c
  | .joiner => widthJoined c

def width (s : Text) : Nat :=
  (s.foldr (fun c (total, right) => ((widthBefore c right).1 + total, (widthBefore c right).2))
    (0, Right.plain)).1

end Attribution.Text
