/-
  Attribution.Proofs.Resolving — settings whose paths are resolved more than once.

  (1) To resolve against one project and then against another is to resolve once, against
  the first as seen from the second (`resolve_resolve`). So any number of resolutions is one
  (`foldl_resolve`), and after one against an absolute path no other counts
  (`foldl_resolve_of_isAbsolute`).

  (2) Only paths are resolved (`redirected_resolve`): the texts stay, a cache root that is to
  be looked for stays so, and the sub-licenses stay in their places.
-/
import Attribution.Settings
import Mathlib.Data.List.Forall2

namespace Attribution.Settings

variable (s : Settings)

/-! ## (1) Several resolutions -/

theorem resolve_resolve (p q : Path) : (s.resolve p).resolve q = s.resolve (q.join p) := by
  have hjoin : q.join ∘ p.join = (q.join p).join := funext (Path.join_join q p)
  simp only [resolve, Path.join_join, Option.map_map, hjoin, List.map_map, Function.comp_def]

/-- A further project goes in front of those before it. -/
theorem foldl_resolve (p : Path) (qs : List Path) :
    qs.foldl resolve (s.resolve p) = s.resolve (qs.foldl (fun base q => q.join base) p) := by
  induction qs generalizing p with
  | nil => rfl
  | cons q qs ih => rw [List.foldl_cons, List.foldl_cons, resolve_resolve, ih]

theorem foldl_resolve_of_isAbsolute {p : Path} (hp : p.isAbsolute = true) (qs : List Path) :
    qs.foldl resolve (s.resolve p) = s.resolve p := by
  have hbase : qs.foldl (fun base q => q.join base) p = p := by
    induction qs with
    | nil => rfl
    | cons q qs ih => rw [List.foldl_cons, Path.join_of_isAbsolute hp, ih]
  rw [foldl_resolve, hbase]

/-! ## (2) What stays -/

structure Redirected (project : Path) (s s' : Settings) : Prop where
  label : s'.label = s.label
  copyrightFile : s'.copyrightFile = s.copyrightFile
  cacheRoot : s'.cacheRoot = none ↔ s.cacheRoot = none
  sublicenses : List.Forall₂ (fun x y => y.label = x.label ∧ y.path = project.join x.path)
    s.sublicenses s'.sublicenses

theorem redirected_resolve (project : Path) : Redirected project s (s.resolve project) where
  label := rfl
  copyrightFile := rfl
  cacheRoot := Option.map_eq_none_iff
  sublicenses := List.forall₂_map_right_iff.mpr (List.forall₂_same.mpr fun _ _ => ⟨rfl, rfl⟩)

/-- Resolving twice is resolving once to the joined path, an absolute path ends it, and nothing
    but paths is ever changed. -/
theorem resolve_again (p q : Path) :
    (s.resolve p).resolve q = s.resolve (q.join p) ∧
      (p.isAbsolute = true → ∀ qs : List Path, qs.foldl resolve (s.resolve p) = s.resolve p) ∧
      Redirected p s (s.resolve p) :=
  ⟨s.resolve_resolve p q, s.foldl_resolve_of_isAbsolute, s.redirected_resolve p⟩

/-! ### Settings resolved three times -/

open Attribution.Path (ofString)

def scattered : Settings :=
  { default with
    license := []
    output := ofString "dist/"
    sublicenses := [⟨"opus".toList, ofString "../opus/COPYING"⟩, ⟨"speexdsp".toList, ofString "/usr/share/speexdsp"⟩] }

theorem resolve_again_scattered : (ofString "/work").isAbsolute = true ∧
    ((scattered.resolve (ofString "/work")).resolve (ofString "afv/")).resolve [] = scattered.resolve (ofString "/work") ∧
    (scattered.resolve (ofString "/work")).license = ofString "/work/" := by
  have hwork : (ofString "/work").isAbsolute = true := rfl
  have hagain := (resolve_again scattered (ofString "/work") []).2.1 hwork
  exact ⟨hwork, hagain [ofString "afv/", []], rfl⟩

end Attribution.Settings
