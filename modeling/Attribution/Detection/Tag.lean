/-
  Attribution.Detection.Tag — the license a text names in a tag of its own.

  What the tag names is the shortest part after the mark and the white space
  behind it that the rest of its line, white space and at most one end of a
  comment, can follow.
-/
import Attribution.Pattern

namespace Attribution.Tag

open Text Pattern

def mark : Text := "SPDX-License-Identifier:".toList

def literal (s : Text) : Pattern := seqAll (s.map fun c => one (· == c))

def notNewline (c : Char) : Bool := c != '\n'

def opening : Pattern := seq (literal mark) (many isBlank)

def named : Pattern := seq (one notNewline) (few notNewline)

def closing : Pattern := seqAll [many isBlank, opt (literal "*/".toList), many isBlank, lineEnd]

/-- What the first tag of a text names. -/
def find? (s : Text) : Option Text := capture? opening named closing s

end Attribution.Tag
