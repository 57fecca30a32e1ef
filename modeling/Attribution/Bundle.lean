/-
  Attribution.Bundle — the text that holds all the licenses.

  A bundle is a sequence of sections, each a label with the texts under it. It is
  written section by section, so that a section added later leaves what comes
  before it as it is (`render_append`). How many bytes that takes is counted
  before it is written (`capacity`).
-/
import Attribution.Text.Utf8

namespace Attribution

structure Section where
  label : Text
  texts : List Text
  deriving DecidableEq

structure Bundle where
  sections : List Section
  deriving DecidableEq

def Section.separator : Text := "\n\n".toList

def Section.render (s : Section) : Text :=
  s.label ++ separator ++ s.texts.flatMap (· ++ separator)

/-- The bytes to set aside for a section: those of its label and its texts, and a
    separator for each of them. -/
def Section.capacity (s : Section) : Nat :=
  Text.size s.label + s.texts.foldr (Text.size · + ·) 0 + Text.size separator * (s.texts.length + 1)

namespace Bundle

def empty : Bundle := ⟨[]⟩

def pushAll (b : Bundle) (label : Text) (texts : List Text) : Bundle :=
  ⟨b.sections ++ [⟨label, texts⟩]⟩

def push (b : Bundle) (label text : Text) : Bundle := b.pushAll label [text]

def render (b : Bundle) : Text := b.sections.flatMap Section.render

def capacity (b : Bundle) : Nat := b.sections.foldr (·.capacity + ·) 0

theorem render_append (a b : List Section) : render ⟨a ++ b⟩ = render ⟨a⟩ ++ render ⟨b⟩ := by
  simp [render]

theorem render_pushAll (b : Bundle) (label : Text) (texts : List Text) :
    (b.pushAll label texts).render = b.render ++ Section.render ⟨label, texts⟩ := by
  simp [render, pushAll]

end Bundle

end Attribution
