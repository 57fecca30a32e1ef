/-
  Attribution.Proofs.Appending — a bundle grows at its end, and the room it takes is known
  before it is written.

  (1) Each step adds one section behind the others (`sections_apply`). So what is written
  for steps is what is written for the first of them, and behind it what the others give in
  a new bundle (`render_after_append`).

  (2) The bytes set aside for a bundle are as many as it is written with (`size_render`):
  those of its labels and texts, and two behind each of them (`capacity_eq_sum`).

  (3) Writing goes text by text into what has been set aside. What can be written where
  there is just room for it can also be written one behind the other (`Writes.andThen`,
  `Writes.each`); so a bundle is written with what was set aside for it, and nothing of that
  is left (`write?_eq`).

  (4) This holds whatever steps a bundle was built in (`after_steps`).
-/
import Attribution.Bundle
import Mathlib.Algebra.GroupWithZero.Nat

namespace Attribution

open Text

/-! ## (1) Steps -/

namespace Bundle

inductive Step where
  | push (label text : Text)
  | pushAll (label : Text) (texts : List Text)
  deriving DecidableEq

def Step.added : Step → Section
  | push label text => ⟨label, [text]⟩
  | pushAll label texts => ⟨label, texts⟩

def apply (b : Bundle) : Step → Bundle
  | .push label text => b.push label text
  | .pushAll label texts => b.pushAll label texts

def after (steps : List Step) : Bundle := steps.foldl apply empty

theorem sections_apply (b : Bundle) (step : Step) : (b.apply step).sections = b.sections ++ [step.added] := by
  cases step <;> rfl

theorem sections_foldl_apply (steps : List Step) (b : Bundle) :
    (steps.foldl apply b).sections = b.sections ++ steps.map Step.added := by
  induction steps generalizing b with
  | nil => simp
  | cons step steps ih =>
    rw [List.foldl_cons, ih, sections_apply, List.append_assoc, List.singleton_append, List.map_cons]

theorem sections_after (steps : List Step) : (after steps).sections = steps.map Step.added :=
  sections_foldl_apply steps empty

theorem render_after_append (steps later : List Step) :
    (after (steps ++ later)).render = (after steps).render ++ (after later).render := by
  have hsections : (after (steps ++ later)).sections = (after steps).sections ++ (after later).sections := by
    rw [sections_after, sections_after, sections_after, List.map_append]
  rw [render, hsections]
  exact render_append _ _

/-- A single text is added as a list of one, whatever steps come before and behind. -/
theorem render_after_push (steps later : List Step) (label text : Text) :
    (after (steps ++ .push label text :: later)).render =
      (after (steps ++ .pushAll label [text] :: later)).render := by
  have hadded : (steps ++ .push label text :: later).map Step.added =
      (steps ++ .pushAll label [text] :: later).map Step.added := by
    rw [List.map_append, List.map_append]
    rfl
  rw [render, render, sections_after, sections_after, hadded]

end Bundle

/-! ## (2) Bytes set aside -/

theorem Section.size_texts (texts : List Text) :
    size (texts.flatMap (· ++ separator)) = texts.foldr (size · + ·) 0 + size separator * texts.length := by
  induction texts with
  | nil => rfl
  | cons text texts ih =>
    rw [List.flatMap_cons, size_append, size_append, ih, List.foldr_cons, List.length_cons, Nat.mul_succ]
    omega

theorem Section.size_render (s : Section) : size s.render = s.capacity := by
  rw [Section.render, size_append, size_append, size_texts, capacity, Nat.mul_succ]
  omega

theorem Bundle.size_render (b : Bundle) : size b.render = b.capacity := by
  obtain ⟨sections⟩ := b
  induction sections with
  | nil => rfl
  | cons s sections ih =>
    calc size (render ⟨s :: sections⟩)
        = size s.render + size (render ⟨sections⟩) := size_append _ _
      _ = s.capacity + capacity ⟨sections⟩ := by rw [s.size_render, ih]
      _ = capacity ⟨s :: sections⟩ := rfl

theorem foldr_add_eq_sum {α : Type} (f : α → Nat) (xs : List α) : xs.foldr (f · + ·) 0 = (xs.map f).sum := by
  rw [List.sum_eq_foldr, List.foldr_map]

theorem Section.capacity_eq_sum (s : Section) :
    s.capacity = size s.label + (s.texts.map size).sum + 2 * (s.texts.length + 1) := by
  rw [capacity, foldr_add_eq_sum]
  rfl

theorem Bundle.capacity_eq_sum (b : Bundle) : b.capacity = (b.sections.map fun s =>
    size s.label + (s.texts.map size).sum + 2 * (s.texts.length + 1)).sum := by
  rw [capacity, foldr_add_eq_sum]
  exact congrArg List.sum (List.map_congr_left fun s _ => s.capacity_eq_sum)

/-! ## (3) Writing into what is set aside -/

/-- A text being written, and how many of the bytes set aside for it are left. -/
structure Buffer where
  written : Text
  room : Nat
  deriving DecidableEq

namespace Buffer

/-- Room is set aside and nothing is written. -/
def reserve (room : Nat) : Buffer := ⟨[], room⟩

def write? (b : Buffer) (s : Text) : Option Buffer :=
  if size s ≤ b.room then some ⟨b.written ++ s, b.room - size s⟩ else none

/-- Wherever there is room for `s`, `f` writes `s` and takes no more than that. -/
def Writes (f : Buffer → Option Buffer) (s : Text) : Prop :=
  ∀ written room, f ⟨written, size s + room⟩ = some ⟨written ++ s, room⟩

theorem writes_write? (s : Text) : Writes (write? · s) s := by
  intro written room
  show write? _ s = _
  rw [write?, if_pos (Nat.le_add_right _ _), Nat.add_sub_cancel_left]

theorem Writes.andThen {f g : Buffer → Option Buffer} {s t : Text} (hf : Writes f s) (hg : Writes g t) :
    Writes (fun b => f b >>= g) (s ++ t) := by
  -- The room for both is that for the first, with that for the second left behind it.
  intro written room
  show (f _ >>= g) = _
  rw [size_append, Nat.add_assoc, hf, ← List.append_assoc]
  exact hg _ _

/-- A loop writes what each of its rounds writes, in their order. -/
theorem Writes.each {α : Type} {f : Buffer → α → Option Buffer} {text : α → Text}
    (h : ∀ x, Writes (f · x) (text x)) (xs : List α) : Writes (xs.foldlM f) (xs.flatMap text) := by
  induction xs with
  | nil =>
    intro written room
    simp
  | cons x xs ih => exact (h x).andThen ih

def writePart? (b : Buffer) (s : Text) : Option Buffer := b.write? s >>= (·.write? Section.separator)

def writeSection? (b : Buffer) (s : Section) : Option Buffer := b.writePart? s.label >>= s.texts.foldlM writePart?

theorem writes_writePart? (s : Text) : Writes (writePart? · s) (s ++ Section.separator) :=
  (writes_write? s).andThen (writes_write? Section.separator)

theorem writes_writeSection? (s : Section) : Writes (writeSection? · s) s.render :=
  (writes_writePart? s.label).andThen (Writes.each writes_writePart? s.texts)

end Buffer

namespace Bundle

def write? (b : Bundle) : Option Buffer := b.sections.foldlM Buffer.writeSection? (.reserve b.capacity)

theorem write?_eq (b : Bundle) : b.write? = some ⟨b.render, 0⟩ := by
  have hwrites := Buffer.Writes.each Buffer.writes_writeSection? b.sections [] 0
  rw [write?, Buffer.reserve, ← b.size_render]
  exact hwrites

/-! ## (4) Any steps -/

/-- What later steps write stands behind what the earlier ones have written, as it would
    stand in a new bundle, and a text by itself is written as a list of one. The bytes set
    aside, counted section by section, are those that are written: no more are needed on
    the way, and none are left. -/
theorem after_steps (steps later : List Step) :
    (after (steps ++ later)).render = (after steps).render ++ (after later).render ∧
      (after steps).render <+: (after (steps ++ later)).render ∧
      (∀ label text, (after (steps ++ .push label text :: later)).render =
        (after (steps ++ .pushAll label [text] :: later)).render) ∧
      (encode (after steps).render).length = (after steps).capacity ∧
      (after steps).capacity = ((steps.map Step.added).map fun s =>
        size s.label + (s.texts.map size).sum + 2 * (s.texts.length + 1)).sum ∧
      (after steps).write? = some ⟨(after steps).render, 0⟩ := by
  have happend := render_after_append steps later
  refine ⟨happend, happend ▸ List.prefix_append _ _, render_after_push steps later, ?_, ?_, write?_eq _⟩
  · rw [length_encode, size_render]
  · rw [capacity_eq_sum, sections_after]

example : (after [.push "app".toList "ours".toList, .pushAll "größe".toList ["one".toList, "two".toList]]).write? =
    some ⟨"app\n\nours\n\ngröße\n\none\n\ntwo\n\n".toList, 0⟩ := by decide

end Bundle

end Attribution
