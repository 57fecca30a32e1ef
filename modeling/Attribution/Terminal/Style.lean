/-
  Attribution.Terminal.Style — colours on a terminal.

  A styled text stands between the opening code of its style and the reset code. A
  reset inside it would end the style early, so the opening code is written again
  after each.
-/
import Attribution.Text.Basic

namespace Attribution

inductive Style where
  | bold
  | green
  | yellow
  | cyan
  | boldGreen
  | boldYellow
  deriving DecidableEq, Repr

namespace Style

def code : Style → Text
  | bold => "1".toList
  | green => "32".toList
  | yellow => "33".toList
  | cyan => "36".toList
  | boldGreen => "1;32".toList
  | boldYellow => "1;33".toList

def escape : Char := '\x1B'

def opening (s : Style) : Text := escape :: '[' :: s.code ++ ['m']

def reset : Text := [escape, '[', '0', 'm']

/-- The text in a style, or as it is where colours are off. -/
def paint (color : Bool) (s : Style) (t : Text) : Text :=
  if color then
    s.opening ++ List.intercalate (reset ++ s.opening) (Text.splitOn reset t) ++ reset
  else t

end Style

end Attribution
