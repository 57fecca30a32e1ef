/-
  Attribution.Proofs.Writing — what a run leaves behind in the tree.

  (1) A file that is written is at the end of its path afterwards, also if the path was
  vacant or went over links; every other location has what it had (`write_eq_ok`).

  (2) A run that fails leaves the tree as it was; one that succeeds changes what its
  output path leads to, and nothing else (`collect_tree`).
-/
import Attribution.Gathering
import Attribution.Proofs.Leading

namespace Attribution

namespace Tree

variable {t t' : Tree} {here : Location} {p : Path}

/-! ## (1) Writing -/

theorem node?_add {dir : Location} {name : Bytes} {node : Node} (hv : t.IsVacant dir name) (hs : node.IsSound)
    (l : Location) : (t.add dir name node).node? l = if l = dir ++ [name] then some node else t.node? l := by
  have hadd : (t.add dir name node).entries = t.entries ++ [(dir ++ [name], node)] := by
    rw [add, dif_pos ⟨hv.directory, hv.free, hv.isName, hs⟩]
  have hfree := hv.free
  unfold node? Entries.node? at hfree ⊢
  rw [if_neg (by simp)] at hfree
  rw [hadd, List.lookup_append]
  by_cases hl : l = dir ++ [name]
  · subst hl
    rw [if_neg (by simp), if_pos rfl, hfree]
    simp
  · have hone : List.lookup l [(dir ++ [name], node)] = none := by
      rw [List.lookup_cons, beq_false_of_ne hl]
      rfl
    rw [hone, Option.or_none, if_neg hl]

theorem lookup_refill (l : Location) (content : Bytes) (es : Entries) (k : Location) :
    (es.map (refill l content)).lookup k = (es.lookup k).map fun n => (refill l content (k, n)).2 := by
  induction es with
  | nil => rfl
  | cons e es ih =>
    obtain ⟨k', n⟩ := e
    have hfst : refill l content (k', n) = (k', (refill l content (k', n)).2) := by cases n <;> rfl
    rw [List.map_cons, hfst, List.lookup_cons, List.lookup_cons]
    by_cases hk : k = k'
    · subst hk
      simp
    · rw [beq_false_of_ne hk]
      exact ih

theorem node?_setContent {l : Location} {old : Bytes} (content : Bytes) (hl : t.node? l = some (.file old))
    (k : Location) : (t.setContent l content).node? k = if k = l then some (.file content) else t.node? k := by
  have hne : l ≠ [] := by
    rintro rfl
    cases hl
  unfold node? Entries.node? at hl ⊢
  rw [if_neg hne] at hl
  rw [setContent, lookup_refill]
  by_cases hk : k = l
  · subst hk
    rw [if_neg hne, if_pos rfl, hl]
    simp [refill]
  · rw [if_neg hk]
    have hsame : (t.entries.lookup k).map (fun n => (refill l content (k, n)).2) = t.entries.lookup k := by
      rcases t.entries.lookup k with _ | (_ | old | target)
      · rfl
      · rfl
      · simp [refill, hk]
      · rfl
    rw [hsame]

theorem alike_setContent {l : Location} {old : Bytes} (content : Bytes) (hl : t.node? l = some (.file old)) :
    Alike t (t.setContent l content) := by
  have hnode := node?_setContent content hl
  have hother : ∀ k n, t.node? k = n → n ≠ some (.file old) → (t.setContent l content).node? k = n := by
    intro k n hn hne
    rw [hnode, if_neg]
    · exact hn
    · rintro rfl
      exact hne (hn.symm.trans hl)
  constructor
  case none =>
    intro k hk
    exact hother k _ hk (by simp)
  case directory =>
    intro k hk
    exact hother k _ hk (by simp)
  case link =>
    intro k target hk
    exact hother k _ hk (by simp)
  case file =>
    intro k c hk
    rw [hnode]
    by_cases h : k = l
    · exact ⟨content, if_pos h⟩
    · exact ⟨c, by rw [if_neg h, hk]⟩

/-- What is written stands at the end of its path, and everything else as before. -/
structure Written (t t' : Tree) (here : Location) (p : Path) (content : Bytes) (l : Location) : Prop where
  resolve : t'.resolve here p = .ok l
  content : t'.node? l = some (.file content)
  same : ∀ k, t.resolve here p = .ok k → k = l
  new : t.resolve here p ≠ .ok l → t.node? l = none
  other : ∀ k, k ≠ l → t'.node? k = t.node? k

theorem written_add {dir : Location} {name : Bytes} (content : Bytes)
    (hs : t.spot false here p = .ok (.vacant dir name)) :
    Written t (t.add dir name (.file content)) here p content (dir ++ [name]) := by
  have hv := spot_vacant hs
  have hnode : ∀ l, (t.add dir name (.file content)).node? l =
      if l = dir ++ [name] then some (.file content) else t.node? l := node?_add hv trivial
  have hnew := (hnode (dir ++ [name])).trans (if_pos rfl)
  have hkeep : ∀ l n, t.node? l = some n → (t.add dir name (.file content)).node? l = some n := by
    intro l n hl
    rw [hnode, if_neg, hl]
    rintro rfl
    rw [hv.free] at hl
    cases hl
  have hnone : ∀ k, t.resolve here p ≠ .ok k := by
    intro k hk
    rw [resolve_eq_ok_iff, hs] at hk
    cases hk
  exact ⟨resolve_eq_ok_iff.mpr (spot_filled hkeep hnew hs), hnew, fun k hk => absurd hk (hnone k),
    fun _ => hv.free, fun k hk => (hnode k).trans (if_neg hk)⟩

theorem written_setContent {l : Location} {old : Bytes} (content : Bytes)
    (hs : t.spot false here p = .ok (.occupied l)) (hl : t.node? l = some (.file old)) :
    Written t (t.setContent l content) here p content l := by
  have hnode := node?_setContent content hl
  have hres : t.resolve here p = .ok l := resolve_eq_ok_iff.mpr hs
  refine ⟨(resolve_alike (alike_setContent content hl) here p).trans hres, (hnode l).trans (if_pos rfl),
    fun k hk => ?_, fun hno => absurd hres hno, fun k hk => (hnode k).trans (if_neg hk)⟩
  rw [hres] at hk
  cases hk
  rfl

/-- A write that succeeds takes a vacant place, or gives a file new content. -/
theorem write_cases {content : Bytes} (h : t.write here p content = .ok t') :
    (∃ dir name, t.spot true here p = .ok (.vacant dir name) ∧ t' = t.add dir name (.file content)) ∨
      ∃ l old, t.spot true here p = .ok (.occupied l) ∧ t.node? l = some (.file old) ∧ t' = t.setContent l content := by
  unfold write at h
  rcases hs : t.spot true here p with c | (l | ⟨dir, name⟩)
  case error =>
    rw [hs] at h
    cases h
  case ok.vacant =>
    rw [hs] at h
    cases h
    exact Or.inl ⟨dir, name, rfl, rfl⟩
  case ok.occupied =>
    rw [hs] at h
    simp only at h
    rcases hl : t.node? l with _ | (_ | old | target)
    case some.file =>
      rw [hl] at h
      cases h
      exact Or.inr ⟨l, old, rfl, hl, rfl⟩
    all_goals
      rw [hl] at h
      cases h

theorem write_eq_ok {content : Bytes} (h : t.write here p content = .ok t') :
    ∃ l, Written t t' here p content l := by
  rcases write_cases h with ⟨dir, name, hs, rfl⟩ | ⟨l, old, hs, hl, rfl⟩
  · exact ⟨dir ++ [name], written_add content (spot_reading hs)⟩
  · exact ⟨l, written_setContent content (spot_reading hs) hl⟩

/-- The file can be read where it was written. -/
theorem Written.readBytes {content : Bytes} {l : Location} (h : Written t t' here p content l) :
    t'.readBytes here p = .ok content := by
  rw [Tree.readBytes, h.resolve]
  simp only [h.content]

/-! ## (2) Runs -/

/-- A run that fails leaves the tree as it was. A run that succeeds leaves a file at the
    end of its output path and every other location as it was. -/
theorem collect_tree (t : Tree) (here : Location) (o : Order) (output : Path) (bar : Progress) :
    match t.collect here o output bar with
    | (t', _, some _) => t' = t
    | (t', g, none) => ∃ l, Written t t' here output (Text.encode g.bundle.render) l := by
  rw [collect]
  rcases t.gather here o bar with ⟨g, _ | f⟩
  · cases hw : t.write here output (Text.encode g.bundle.render) with
    | error c => simp only [hw]
    | ok t' =>
      simp only [hw]
      exact write_eq_ok hw
  · rfl

end Tree

end Attribution
