/-
  Attribution.Proofs.Matching — the tables of a pattern against a search by backtracking.

  (1) The search. From a place in a text a pattern can end at further places, which are
  tried in an order: many characters before few, few before many, the first alternative
  before the second (`ends`). The first end that lets the rest succeed counts.

  (2) The tables hold what the search finds at every place of the text (`before_eq`), so
  a pattern is found iff it has an end from some place (`foundIn_iff`), and what is
  captured is what the leftmost search captures (`capture?_eq`).

  (3) A stretch of characters of a kind is tried place by place, up to the first
  character of another kind (`stretch_append`, `mem_stretch`).
-/
import Attribution.Pattern

namespace Attribution

structure Cursor where
  /-- At the start of a line. -/
  fresh : Bool
  rest : Text
  deriving DecidableEq

namespace Pattern

variable {β : Type}

/-! ## (1) The search -/

def cursors (fresh : Bool) : Text → List Cursor
  | [] => [⟨fresh, []⟩]
  | c :: s => ⟨fresh, c :: s⟩ :: cursors (c == '\n') s

def stretch (kind : Char → Bool) (fresh : Bool) : Text → List Cursor
  | [] => [⟨fresh, []⟩]
  | c :: s => ⟨fresh, c :: s⟩ :: if kind c then stretch kind (c == '\n') s else []

/-- Where a pattern can end, in the order in which the ends are tried. -/
def ends : Pattern → Cursor → List Cursor
  | empty, c => [c]
  | one kind, c => match c.rest with
    | [] => []
    | x :: s => if kind x then [⟨x == '\n', s⟩] else []
  | many kind, c => (stretch kind c.fresh c.rest).reverse
  | few kind, c => stretch kind c.fresh c.rest
  | lineStart, c => if c.fresh then [c] else []
  | lineEnd, c => if c.rest.head?.all (· == '\n') then [c] else []
  | seq p q, c => (ends p c).flatMap (ends q)
  | alt p q, c => ends p c ++ ends q c

def captureAt (opening inner closing : Pattern) (c : Cursor) : Option Text :=
  (opening.ends c).findSome? fun start => (inner.ends start).findSome? fun stop =>
    if closing.ends stop = [] then none
    else some (start.rest.take (start.rest.length - stop.rest.length))

theorem mem_ends_seq {p q : Pattern} {c c' : Cursor} :
    c' ∈ (seq p q).ends c ↔ ∃ c₁ ∈ p.ends c, c' ∈ q.ends c₁ := List.mem_flatMap

/-! ### The places of a text -/

theorem mem_cursors_self (c : Cursor) : c ∈ cursors c.fresh c.rest := by
  obtain ⟨fresh, _ | ⟨x, s⟩⟩ := c
  · exact List.mem_singleton.mpr rfl
  · exact List.mem_cons_self

theorem cursors_subset {c : Cursor} {fresh : Bool} {s : Text} (h : c ∈ cursors fresh s) :
    cursors c.fresh c.rest ⊆ cursors fresh s := by
  induction s generalizing fresh with
  | nil =>
    rw [cursors, List.mem_singleton] at h
    rw [h]
    exact fun c' hc' => hc'
  | cons x s ih =>
    rw [cursors, List.mem_cons] at h
    rcases h with rfl | h
    · exact fun c' hc' => hc'
    · exact fun c' hc' => List.mem_cons_of_mem _ (ih h hc')

theorem suffix_of_mem_cursors {c : Cursor} {fresh : Bool} {s : Text} (h : c ∈ cursors fresh s) : c.rest <:+ s := by
  induction s generalizing fresh with
  | nil =>
    obtain rfl := List.mem_singleton.mp h
    exact List.suffix_refl _
  | cons x s ih =>
    rcases List.mem_cons.mp h with rfl | h
    · exact List.suffix_refl _
    · exact (ih h).trans (List.suffix_cons x s)

theorem stretch_subset (kind : Char → Bool) (fresh : Bool) (s : Text) :
    stretch kind fresh s ⊆ cursors fresh s := by
  induction s generalizing fresh with
  | nil => exact fun c hc => hc
  | cons x s ih =>
    intro c hc
    rw [stretch, List.mem_cons] at hc
    rcases hc with rfl | hc
    · exact List.mem_cons_self
    · split at hc
      · exact List.mem_cons_of_mem _ (ih _ hc)
      · cases hc

/-- A pattern ends at the place where it starts or further on. -/
theorem ends_subset (p : Pattern) (c : Cursor) : p.ends c ⊆ cursors c.fresh c.rest := by
  induction p generalizing c with
  | empty => simpa [ends] using mem_cursors_self c
  | one kind =>
    obtain ⟨fresh, _ | ⟨x, s⟩⟩ := c
    · simp [ends]
    · by_cases hx : kind x = true
      · simpa [ends, hx, cursors] using mem_cursors_self ⟨x == '\n', s⟩
      · simp [ends, hx]
  | many kind => simpa [ends] using stretch_subset kind c.fresh c.rest
  | few kind => exact stretch_subset kind c.fresh c.rest
  | lineStart =>
    rw [ends]
    split
    · simpa using mem_cursors_self c
    · simp
  | lineEnd =>
    rw [ends]
    split
    · simpa using mem_cursors_self c
    · simp
  | seq p q ihp ihq =>
    intro c' hc'
    obtain ⟨c₁, h₁, h₂⟩ := List.mem_flatMap.mp hc'
    exact cursors_subset (ihp c h₁) (ihq c₁ h₂)
  | alt p q ihp ihq => exact List.append_subset.mpr ⟨ihp c, ihq c⟩

/-! ## (2) The tables -/

theorem beforeOne_eq (kind : Char → Bool) (f : Cursor → Option β) (fresh : Bool) (s : Text) :
    beforeOne kind s ((cursors fresh s).map f) =
      (cursors fresh s).map fun c => ((one kind).ends c).findSome? f := by
  induction s generalizing fresh with
  | nil => rfl
  | cons x s ih =>
    have hhead : ((cursors (x == '\n') s).map f).headD none = f ⟨x == '\n', s⟩ := by cases s <;> rfl
    simp only [cursors, List.map_cons, beforeOne, ih, hhead, ends]
    by_cases hx : kind x = true
    · simp [hx]
    · simp [hx]

theorem headD_map_cursors (f : Cursor → Option β) (fresh : Bool) (s : Text) :
    ((cursors fresh s).map f).headD none = f ⟨fresh, s⟩ := by
  cases s <;> rfl

theorem beforeMany_eq (kind : Char → Bool) (f : Cursor → Option β) (fresh : Bool) (s : Text) :
    beforeMany kind s ((cursors fresh s).map f) =
      (cursors fresh s).map fun c => ((many kind).ends c).findSome? f := by
  induction s generalizing fresh with
  | nil => simp [cursors, beforeMany, ends, stretch]
  | cons x s ih =>
    simp only [cursors, List.map_cons, beforeMany, ih, headD_map_cursors, ends, stretch]
    by_cases hx : kind x = true
    · simp [hx, List.findSome?_append]
    · simp [hx]

theorem beforeFew_eq (kind : Char → Bool) (f : Cursor → Option β) (fresh : Bool) (s : Text) :
    beforeFew kind s ((cursors fresh s).map f) =
      (cursors fresh s).map fun c => ((few kind).ends c).findSome? f := by
  induction s generalizing fresh with
  | nil => simp [cursors, beforeFew, ends, stretch]
  | cons x s ih =>
    simp only [cursors, List.map_cons, beforeFew, ih, headD_map_cursors, ends, stretch]
    by_cases hx : kind x = true
    · cases h : f ⟨fresh, x :: s⟩ <;> simp [hx, h]
    · cases h : f ⟨fresh, x :: s⟩ <;> simp [hx, h]

theorem keep_cons (b : Bool) (marks : List Bool) (found : Option β) (k : Prospect β) :
    keep (b :: marks) (found :: k) = (if b then found else none) :: keep marks k := rfl

theorem keep_lineStarts (f : Cursor → Option β) (fresh : Bool) (s : Text) :
    keep (fresh :: s.map (· == '\n')) ((cursors fresh s).map f) =
      (cursors fresh s).map fun c => (lineStart.ends c).findSome? f := by
  have hone : ∀ c : Cursor, (lineStart.ends c).findSome? f = if c.fresh then f c else none := by
    intro c
    rw [ends]
    split <;> simp
  simp only [hone]
  induction s generalizing fresh with
  | nil => rfl
  | cons x s ih => rw [cursors, List.map_cons, List.map_cons, List.map_cons, keep_cons, ih]

theorem keep_lineEnds (f : Cursor → Option β) (fresh : Bool) (s : Text) :
    keep (lineEnds s) ((cursors fresh s).map f) =
      (cursors fresh s).map fun c => (lineEnd.ends c).findSome? f := by
  have hone : ∀ c : Cursor, (lineEnd.ends c).findSome? f =
      if c.rest.head?.all (· == '\n') then f c else none := by
    intro c
    rw [ends]
    split <;> simp
  simp only [hone]
  induction s generalizing fresh with
  | nil => rfl
  | cons x s ih =>
    rw [lineEnds, List.map_cons, List.cons_append, cursors, List.map_cons, List.map_cons, keep_cons]
    exact congrArg _ (ih _)

theorem findSome?_flatMap {α γ : Type} (l : List α) (g : α → List γ) (f : γ → Option β) :
    (l.flatMap g).findSome? f = l.findSome? fun a => (g a).findSome? f := by
  induction l with
  | nil => rfl
  | cons a l ih =>
    rw [List.flatMap_cons, List.findSome?_append, ih, List.findSome?_cons]
    cases (g a).findSome? f <;> rfl

/-- The tables of a pattern hold what its ends lead to. -/
theorem before_eq (p : Pattern) (s : Text) (f : Cursor → Option β) :
    p.before s ((cursors true s).map f) = (cursors true s).map fun c => (p.ends c).findSome? f := by
  induction p generalizing f with
  | empty => simp [before, ends]
  | one kind => exact beforeOne_eq kind f true s
  | many kind => exact beforeMany_eq kind f true s
  | few kind => exact beforeFew_eq kind f true s
  | lineStart => exact keep_lineStarts f true s
  | lineEnd => exact keep_lineEnds f true s
  | seq p q ihp ihq =>
    rw [before, ihq]
    simp only [ends, findSome?_flatMap]
    split
    · exact ihp _
    · next hnone =>
      -- Nothing can be found from any place, so the first pattern need not be looked for.
      have hlater : ∀ c ∈ cursors true s, (q.ends c).findSome? f = none := by
        simpa using hnone
      refine List.map_congr_left fun c hc => ?_
      rw [hlater c hc, eq_comm, List.findSome?_eq_none_iff]
      intro c' hc'
      exact hlater c' (cursors_subset hc (ends_subset p c hc'))
  | alt p q ihp ihq =>
    rw [before, ihp, ihq]
    simp only [ends, List.findSome?_append, List.zipWith_map, List.zipWith_self, Option.orElse_eq_orElse,
      Option.orElse_eq_or]

theorem anywhere_eq (s : Text) : anywhere s = (cursors true s).map fun _ => some () := by
  have hlen : ∀ fresh, (cursors fresh s).length = s.length + 1 := by
    induction s with
    | nil => exact fun _ => rfl
    | cons x s ih => exact fun fresh => congrArg (· + 1) (ih _)
  rw [List.map_const', hlen, anywhere]

theorem suffixes_eq (fresh : Bool) (s : Text) : suffixes s = (cursors fresh s).map Cursor.rest := by
  induction s generalizing fresh with
  | nil => rfl
  | cons x s ih => rw [suffixes, cursors, List.map_cons, ih]

theorem mark_eq (s : Text) (f : Cursor → Option β) :
    mark s ((cursors true s).map f) = (cursors true s).map fun c => (f c).map (c.rest, ·) := by
  rw [mark, suffixes_eq true, List.zipWith_map, List.zipWith_self]

theorem findSome?_anywhere (l : List Cursor) :
    l.findSome? (fun _ => some ()) = if l = [] then none else some () := by
  cases l <;> rfl

/-- A pattern is found iff it has an end from some place. -/
theorem foundIn_iff {p : Pattern} {s : Text} :
    p.foundIn s = true ↔ ∃ c ∈ cursors true s, p.ends c ≠ [] := by
  rw [foundIn, anywhere_eq, before_eq]
  simp [findSome?_anywhere]

/-- What is captured is what the search captures from the first place where it does. -/
theorem capture?_eq (opening inner closing : Pattern) (s : Text) :
    capture? opening inner closing s = (cursors true s).findSome? (captureAt opening inner closing) := by
  simp only [capture?, anywhere_eq, before_eq, mark_eq, findSome?_anywhere, List.findSome?_map]
  rw [List.map_findSome?]
  congr 1
  funext c
  simp only [captureAt, Function.comp_apply, id_eq, List.map_findSome?]
  congr 1
  funext start
  simp only [Function.comp_apply, List.map_findSome?]
  congr 1
  funext stop
  by_cases h : closing.ends stop = []
  · simp [h]
  · simp [h]

/-! ## (3) Stretches -/

theorem mem_stretch {kind : Char → Bool} {fresh : Bool} {s : Text} {c : Cursor} (h : c ∈ stretch kind fresh s) :
    ∃ u, s = u ++ c.rest ∧ ∀ x ∈ u, kind x = true := by
  induction s generalizing fresh with
  | nil =>
    rw [stretch, List.mem_singleton] at h
    exact ⟨[], by simp [h]⟩
  | cons x s ih =>
    rw [stretch, List.mem_cons] at h
    rcases h with rfl | h
    · exact ⟨[], by simp⟩
    · split at h
      · next hx =>
        obtain ⟨u, hu, hkind⟩ := ih h
        exact ⟨x :: u, by rw [List.cons_append, ← hu], List.forall_mem_cons.mpr ⟨hx, hkind⟩⟩
      · cases h

/-- A stretch goes over characters of the kind, each of which it stops before, and on. -/
theorem stretch_append {kind : Char → Bool} {u : Text} (hu : ∀ x ∈ u, kind x = true) (fresh : Bool) (v : Text) :
    ∃ (passed : List Cursor) (fresh' : Bool), stretch kind fresh (u ++ v) = passed ++ stretch kind fresh' v ∧
      ∀ c ∈ passed, ∃ u₁ u₂, u = u₁ ++ u₂ ∧ u₂ ≠ [] ∧ c.rest = u₂ ++ v := by
  induction u generalizing fresh with
  | nil => exact ⟨[], fresh, rfl, by simp⟩
  | cons x u ih =>
    obtain ⟨hx, hu⟩ := List.forall_mem_cons.mp hu
    obtain ⟨passed, fresh', heq, hpassed⟩ := ih hu (x == '\n')
    refine ⟨⟨fresh, x :: (u ++ v)⟩ :: passed, fresh', ?_, List.forall_mem_cons.mpr ⟨?_, ?_⟩⟩
    · rw [List.cons_append, stretch, if_pos hx, heq, List.cons_append]
    · exact ⟨[], x :: u, rfl, by simp, rfl⟩
    · intro c hc
      obtain ⟨u₁, u₂, rfl, hne, hrest⟩ := hpassed c hc
      exact ⟨x :: u₁, u₂, rfl, hne, hrest⟩

theorem stretch_eq_cons (kind : Char → Bool) (fresh : Bool) (v : Text) :
    ∃ further, stretch kind fresh v = ⟨fresh, v⟩ :: further ∧
      ∀ c ∈ further, ∃ x u, v = x :: u ++ c.rest ∧ ∀ y ∈ x :: u, kind y = true := by
  cases v with
  | nil => exact ⟨[], rfl, by simp⟩
  | cons x v =>
    refine ⟨_, rfl, fun c hc => ?_⟩
    split at hc
    · next hx =>
      obtain ⟨u, rfl, hu⟩ := mem_stretch hc
      exact ⟨x, u, rfl, List.forall_mem_cons.mpr ⟨hx, hu⟩⟩
    · cases hc

/-- As few characters as let the rest succeed: `f` fails wherever fewer are taken. -/
theorem findSome?_few {kind : Char → Bool} {f : Cursor → Option β} {c : Cursor} {u v : Text} {b : β}
    (hrest : c.rest = u ++ v) (hu : ∀ x ∈ u, kind x = true)
    (hfewer : ∀ u₁ u₂, u = u₁ ++ u₂ → u₂ ≠ [] → ∀ c', c'.rest = u₂ ++ v → f c' = none)
    (hf : ∀ c', c'.rest = v → f c' = some b) : ((few kind).ends c).findSome? f = some b := by
  obtain ⟨passed, fresh', heq, hpassed⟩ := stretch_append hu c.fresh v
  obtain ⟨further, hcons, -⟩ := stretch_eq_cons kind fresh' v
  have hnone : passed.findSome? f = none := by
    rw [List.findSome?_eq_none_iff]
    intro c' hc'
    obtain ⟨u₁, u₂, h, hne, hr⟩ := hpassed c' hc'
    exact hfewer u₁ u₂ h hne c' hr
  rw [ends, hrest, heq, hcons, List.findSome?_append, hnone, Option.none_or, List.findSome?_cons,
    hf ⟨fresh', v⟩ rfl]

/-- As many characters as let the rest succeed: `f` fails wherever more are taken. -/
theorem findSome?_many {kind : Char → Bool} {f : Cursor → Option β} {c : Cursor} {u v : Text} {b : β}
    (hrest : c.rest = u ++ v) (hu : ∀ x ∈ u, kind x = true)
    (hmore : ∀ x v₁ v₂, v = x :: v₁ ++ v₂ → (∀ y ∈ x :: v₁, kind y = true) → ∀ c', c'.rest = v₂ → f c' = none)
    (hf : ∀ c', c'.rest = v → f c' = some b) : ((many kind).ends c).findSome? f = some b := by
  obtain ⟨passed, fresh', heq, -⟩ := stretch_append hu c.fresh v
  obtain ⟨further, hcons, hfurther⟩ := stretch_eq_cons kind fresh' v
  have hnone : further.reverse.findSome? f = none := by
    rw [List.findSome?_eq_none_iff]
    intro c' hc'
    obtain ⟨x, v₁, h, hkind⟩ := hfurther c' (List.mem_reverse.mp hc')
    exact hmore x v₁ c'.rest h hkind c' rfl
  rw [ends, hrest, heq, hcons, List.reverse_append, List.reverse_cons, List.findSome?_append,
    List.findSome?_append, hnone, List.findSome?_cons, hf ⟨fresh', v⟩ rfl]
  rfl

end Pattern

end Attribution
