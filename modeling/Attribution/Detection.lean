/-
  Attribution.Detection — which license a copyright text is under.

  A tag in the text wins over every phrase. Several texts of one package are under
  all the licenses found in them: the distinct ones, in the order in which they
  were first seen, joined by ` AND `.
-/
import Attribution.Detection.Phrase
import Attribution.Detection.Tag
import Attribution.Expression

namespace Attribution.Detection

open Text

def byPhrase (s : Text) : Option Text := (Phrase.all.find? fun p => p.pattern.foundIn s).map (·.id)

def license (s : Text) : Option Text := Tag.find? s <|> byPhrase s

/-- A choice in parentheses, so that it stays together among other licenses. -/
def grouped (id : Text) : Text :=
  if mentions Expression.orWord id then '(' :: id ++ [')'] else id

def combine (ids : List Text) : Option Text :=
  match ids.eraseDups with
  | [] => none
  | [id] => some id
  | several => some (List.intercalate Expression.andWord (several.map grouped))

end Attribution.Detection
