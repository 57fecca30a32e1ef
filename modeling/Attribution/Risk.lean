/-
  Attribution.Risk — how restrictive a license is.

  The classes stand in the order of restrictiveness. `unknown` ranks between the
  copyleft classes and `proprietary`, so that a choice between an unknown license
  and a known free one is the free one, and a work under both is unknown.
-/
import Attribution.Text.Basic

namespace Attribution

inductive Risk where
  | permissive
  | weakCopyleft
  | strongCopyleft
  | unknown
  | proprietary
  deriving DecidableEq, Repr

namespace Risk

/-- The place in the order; lower is more permissive. -/
def rank : Risk → Nat
  | permissive => 0
  | weakCopyleft => 1
  | strongCopyleft => 2
  | unknown => 3
  | proprietary => 4

instance : LE Risk := ⟨fun a b => a.rank ≤ b.rank⟩

instance (a b : Risk) : Decidable (a ≤ b) := inferInstanceAs (Decidable (a.rank ≤ b.rank))

instance : Min Risk := minOfLe

instance : Max Risk := maxOfLe

/-- The most permissive of several classes; of none, `unknown`. -/
def mostPermissive : List Risk → Risk
  | [] => unknown
  | r :: rs => rs.foldl min r

def mostRestrictive : List Risk → Risk
  | [] => unknown
  | r :: rs => rs.foldl max r

/-- The name as people read it. -/
def title : Risk → Text
  | permissive => "Permissive".toList
  | weakCopyleft => "Weak Copyleft".toList
  | strongCopyleft => "Strong Copyleft".toList
  | unknown => "Unknown".toList
  | proprietary => "Proprietary".toList

/-- The name as the manifest spells it. -/
def tag : Risk → Text
  | permissive => "Permissive".toList
  | weakCopyleft => "WeakCopyleft".toList
  | strongCopyleft => "StrongCopyleft".toList
  | unknown => "Unknown".toList
  | proprietary => "Proprietary".toList

theorem rank_injective {a b : Risk} (h : a.rank = b.rank) : a = b := by
  cases a <;> cases b <;> first | rfl | cases h

theorem le_iff {a b : Risk} : a ≤ b ↔ a.rank ≤ b.rank := Iff.rfl

end Risk

end Attribution
