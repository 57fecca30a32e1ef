/-
  Attribution.Tree.Basic — file trees.

  A tree lists its nodes with their locations, in the order in which the system
  enumerates them. The root is a directory and is not listed. Four facts hold of
  every tree (`WellFormed`) and are kept by every change: no location is listed
  twice, locations are made of names a directory can hold, links have targets that
  the system can keep, and what a node stands in is a directory. So a tree is known
  by what stands at each location (`node?_eq_some_iff`).

  There is nothing else in a tree: no permissions, no devices, pipes or sockets, and no
  second name (hard link) for a file. Whoever asks may read and write every node, and
  neither fails for want of space or of hardware.
-/
import Attribution.Path

namespace Attribution

abbrev Location := List Bytes

inductive Node where
  | directory
  | file (content : Bytes)
  | link (target : Path)
  deriving DecidableEq

def nameLimit : Nat := 255

def IsName (n : Bytes) : Prop :=
  n ≠ [] ∧ n ≠ Path.here ∧ n ≠ Path.up ∧ Path.slash ∉ n ∧ 0 ∉ n ∧ n.length ≤ nameLimit

instance (n : Bytes) : Decidable (IsName n) := by unfold IsName; infer_instance

/-- A link's target is a path that can be followed: it has no NUL and is not empty. -/
def Node.IsSound : Node → Prop
  | link target => target ≠ [] ∧ 0 ∉ target
  | _ => True

instance (n : Node) : Decidable n.IsSound := by
  cases n <;> unfold Node.IsSound <;> infer_instance

abbrev Entries := List (Location × Node)

def Entries.node? (es : Entries) (l : Location) : Option Node :=
  if l = [] then some .directory else es.lookup l

structure WellFormed (es : Entries) : Prop where
  nodup : (es.map Prod.fst).Nodup
  named : ∀ e ∈ es, e.1 ≠ [] ∧ ∀ n ∈ e.1, IsName n
  sound : ∀ e ∈ es, e.2.IsSound
  parent : ∀ e ∈ es, es.node? e.1.dropLast = some .directory

structure Tree where
  entries : Entries
  wellFormed : WellFormed entries

/-! ## Looking up -/

theorem lookup_eq_some_iff_mem {es : Entries} (h : (es.map Prod.fst).Nodup) {l : Location} {n : Node} :
    es.lookup l = some n ↔ (l, n) ∈ es := by
  induction es with
  | nil => simp
  | cons e es ih =>
    obtain ⟨k, m⟩ := e
    simp only [List.map_cons, List.nodup_cons] at h
    rw [List.lookup_cons, List.mem_cons]
    by_cases hk : l = k
    · subst hk
      simp only [beq_self_eq_true, Option.some.injEq, Prod.mk.injEq, true_and]
      refine ⟨fun e => Or.inl e.symm, fun e => e.elim Eq.symm fun e => ?_⟩
      exact absurd (List.mem_map.mpr ⟨_, e, rfl⟩) h.1
    · have : (l == k) = false := by simpa using hk
      simp only [this, ih h.2, Prod.mk.injEq, hk, false_and, false_or]

namespace Entries

theorem node?_nil (es : Entries) : es.node? [] = some .directory := rfl

theorem node?_eq_some_iff {es : Entries} (h : WellFormed es) {l : Location} {n : Node} :
    es.node? l = some n ↔ (l = [] ∧ n = .directory) ∨ (l, n) ∈ es := by
  unfold node?
  split
  · next hl =>
    subst hl
    constructor
    · intro e; cases e; exact Or.inl ⟨rfl, rfl⟩
    · rintro (⟨_, rfl⟩ | hm)
      · rfl
      · exact absurd rfl (h.named _ hm).1
  · next hl => simp [lookup_eq_some_iff_mem h.nodup, hl]

end Entries

namespace Tree

def node? (t : Tree) (l : Location) : Option Node := t.entries.node? l

theorem node?_eq_some_iff (t : Tree) {l : Location} {n : Node} :
    t.node? l = some n ↔ (l = [] ∧ n = .directory) ∨ (l, n) ∈ t.entries :=
  Entries.node?_eq_some_iff t.wellFormed

/-- The names in a directory, in the order in which the system enumerates them. -/
def names (t : Tree) (dir : Location) : List Bytes :=
  t.entries.filterMap fun e => if e.1.dropLast = dir then e.1.getLast? else none

/-- The nodes beneath a location, each with the names that lead down to it. -/
def beneath (t : Tree) (dir : Location) : List (Location × Node) :=
  t.entries.filterMap fun e =>
    if dir.isPrefixOf e.1 && dir.length < e.1.length then some (e.1.drop dir.length, e.2) else none

/-! ## Changes -/

def empty : Tree := ⟨[], ⟨by simp, by simp, by simp, by simp⟩⟩

theorem wellFormed_append {es : Entries} (h : WellFormed es) {dir : Location} {name : Bytes}
    {node : Node} (hd : es.node? dir = some .directory) (hv : es.node? (dir ++ [name]) = none)
    (hn : IsName name) (hs : node.IsSound) : WellFormed (es ++ [(dir ++ [name], node)]) := by
  have hnew : dir ++ [name] ∉ es.map Prod.fst := by
    intro hm
    obtain ⟨⟨l, n⟩, he, hl⟩ := List.mem_map.mp hm
    simp only at hl
    have := (Entries.node?_eq_some_iff h).mpr (Or.inr (hl ▸ he))
    rw [hv] at this; cases this
  have hdup : ((es ++ [(dir ++ [name], node)]).map Prod.fst).Nodup := by
    rw [List.map_append, List.nodup_append]
    refine ⟨h.nodup, by simp, ?_⟩
    intro a ha b hb
    simp at hb
    rintro rfl
    exact hnew (hb ▸ ha)
  have keep : ∀ l, es.node? l = some .directory →
      Entries.node? (es ++ [(dir ++ [name], node)]) l = some .directory := by
    intro l hl
    unfold Entries.node? at hl ⊢
    split
    · rfl
    · next hne =>
      rw [if_neg hne] at hl
      rw [lookup_eq_some_iff_mem hdup]
      exact List.mem_append_left _ ((lookup_eq_some_iff_mem h.nodup).mp hl)
  have hdir : ∀ n ∈ dir, IsName n := by
    rcases (Entries.node?_eq_some_iff h).mp hd with ⟨rfl, _⟩ | hm
    · simp
    · exact (h.named _ hm).2
  refine ⟨hdup, ?_, ?_, ?_⟩
  · intro e he
    rcases List.mem_append.mp he with he | he
    · exact h.named e he
    · simp at he; subst he
      refine ⟨by simp, fun n hn' => ?_⟩
      rcases List.mem_append.mp hn' with hn' | hn'
      · exact hdir n hn'
      · simp at hn'; subst hn'; exact hn
  · intro e he
    rcases List.mem_append.mp he with he | he
    · exact h.sound e he
    · simp at he; subst he
      exact hs
  · intro e he
    rcases List.mem_append.mp he with he | he
    · exact keep _ (h.parent e he)
    · simp at he; subst he
      simpa using keep _ hd

/-- The tree with a new node in a directory; unchanged if the name is taken, there is
    no such directory, or the system has no such node. -/
def add (t : Tree) (dir : Location) (name : Bytes) (node : Node) : Tree :=
  if h : t.node? dir = some .directory ∧ t.node? (dir ++ [name]) = none ∧ IsName name ∧ node.IsSound then
    ⟨t.entries ++ [(dir ++ [name], node)], wellFormed_append t.wellFormed h.1 h.2.1 h.2.2.1 h.2.2.2⟩
  else t

def refill (l : Location) (content : Bytes) (e : Location × Node) : Location × Node :=
  match e with
  | (k, .file old) => (k, .file (if k = l then content else old))
  | (k, .directory) => (k, .directory)
  | (k, .link target) => (k, .link target)

@[simp] theorem refill_fst (l : Location) (content : Bytes) (e : Location × Node) :
    (refill l content e).1 = e.1 := by
  obtain ⟨k, n⟩ := e; cases n <;> rfl

theorem map_refill_fst (l : Location) (content : Bytes) (es : Entries) :
    (es.map (refill l content)).map Prod.fst = es.map Prod.fst := by
  simp [Function.comp_def]

theorem wellFormed_refill {es : Entries} (h : WellFormed es) (l : Location) (content : Bytes) :
    WellFormed (es.map (refill l content)) := by
  have hdup : ((es.map (refill l content)).map Prod.fst).Nodup := by
    rw [map_refill_fst]; exact h.nodup
  refine ⟨hdup, ?_, ?_, ?_⟩
  · intro e he
    obtain ⟨old, hold, rfl⟩ := List.mem_map.mp he
    rw [refill_fst]; exact h.named old hold
  · intro e he
    obtain ⟨⟨k, n⟩, hold, rfl⟩ := List.mem_map.mp he
    cases n with
    | link target => exact h.sound _ hold
    | _ => trivial
  · intro e he
    obtain ⟨old, hold, rfl⟩ := List.mem_map.mp he
    rw [refill_fst]
    have := h.parent old hold
    unfold Entries.node? at this ⊢
    split
    · rfl
    · next hne =>
      rw [if_neg hne] at this
      rw [lookup_eq_some_iff_mem hdup]
      exact List.mem_map.mpr ⟨_, (lookup_eq_some_iff_mem h.nodup).mp this, rfl⟩

def setContent (t : Tree) (l : Location) (content : Bytes) : Tree :=
  ⟨t.entries.map (refill l content), wellFormed_refill t.wellFormed l content⟩

theorem wellFormed_remove {es : Entries} (h : WellFormed es) (l : Location) :
    WellFormed (es.filter fun e => !l.isPrefixOf e.1) := by
  have hdup : ((es.filter fun e => !l.isPrefixOf e.1).map Prod.fst).Nodup :=
    h.nodup.sublist ((List.filter_sublist).map _)
  refine ⟨hdup, fun e he => h.named e (List.mem_filter.mp he).1, fun e he => h.sound e (List.mem_filter.mp he).1, ?_⟩
  intro e he
  obtain ⟨he, hk⟩ := List.mem_filter.mp he
  have := h.parent e he
  unfold Entries.node? at this ⊢
  split
  · rfl
  · next hne =>
    rw [if_neg hne] at this
    rw [lookup_eq_some_iff_mem hdup]
    refine List.mem_filter.mpr ⟨(lookup_eq_some_iff_mem h.nodup).mp this, ?_⟩
    simp only [Bool.not_eq_true', ← Bool.not_eq_true, List.isPrefixOf_iff_prefix] at hk ⊢
    exact fun hp => hk (hp.trans (List.dropLast_prefix _))

def remove (t : Tree) (l : Location) : Tree :=
  ⟨t.entries.filter fun e => !l.isPrefixOf e.1, wellFormed_remove t.wellFormed l⟩

end Tree

end Attribution
