/-
  Attribution.Proofs.Leading — how a path leads to a spot, step by step.

  (1) `Leads` is the way of a path as a relation, one rule for each kind of step; it
  holds exactly of what following the path gives (`follow_eq_ok_iff`).

  (2) A path that leads to a vacant spot leads into a directory, to a name that is
  free there and that the directory can hold (`spot_vacant`). A path that can be used
  for writing leads to the same spot for reading (`Leads.reading`).

  (3) The way depends on the kinds of the nodes only, not on what is in files
  (`follow_alike`). When the vacant spot is taken by a file, the path leads to that file
  (`Leads.filled`).
-/
import Attribution.Tree.Resolve
import Mathlib.Logic.Basic

namespace Attribution

namespace Tree

/-! ## (1) The way of a path -/

structure Proceeds (step : Bytes) : Prop where
  ne_nil : step ≠ []
  ne_here : step ≠ Path.here
  ne_up : step ≠ Path.up
  length_le : step.length ≤ nameLimit

/-- From a location, with so many links left, these steps lead to a spot. -/
inductive Leads (t : Tree) (creating : Bool) : Nat → Location → List Bytes → Spot → Prop
  | done {links : Nat} {here : Location} : Leads t creating links here [] (.occupied here)
  | stay {links : Nat} {here : Location} {step : Bytes} {rest : List Bytes} {s : Spot} :
      t.node? here = some .directory → step = [] ∨ step = Path.here → Leads t creating links here rest s →
      Leads t creating links here (step :: rest) s
  | up {links : Nat} {here : Location} {rest : List Bytes} {s : Spot} :
      t.node? here = some .directory → Leads t creating links here.dropLast rest s →
      Leads t creating links here (Path.up :: rest) s
  | vacant {links : Nat} {here : Location} {step : Bytes} :
      t.node? here = some .directory → Proceeds step → t.node? (here ++ [step]) = none →
      Leads t creating links here [step] (.vacant here step)
  | into {links : Nat} {here : Location} {step : Bytes} {rest : List Bytes} {s : Spot} {n : Node} :
      t.node? here = some .directory → Proceeds step → (creating = true → rest ≠ [[]]) →
      t.node? (here ++ [step]) = some n → (∀ target, n ≠ .link target) →
      Leads t creating links (here ++ [step]) rest s → Leads t creating links here (step :: rest) s
  | jump {links : Nat} {here : Location} {step : Bytes} {rest : List Bytes} {s : Spot} {target : Path} :
      t.node? here = some .directory → Proceeds step → (creating = true → rest ≠ [[]]) →
      t.node? (here ++ [step]) = some (.link target) →
      Leads t creating links (target.start here) (target.steps ++ rest) s →
      Leads t creating (links + 1) here (step :: rest) s

variable {t : Tree} {creating : Bool} {here : Location} {p : Path} {steps : List Bytes} {s : Spot}

/-- Where a step that proceeds goes on. -/
theorem advance_proceeds {step : Bytes} {rest : List Bytes} {jump : Location → List Bytes → Except Cause Spot}
    (hd : t.node? here = some .directory) (hstep : Proceeds step) (hc : creating = true → rest ≠ [[]]) :
    t.advance creating jump here (step :: rest) = match t.node? (here ++ [step]) with
      | none => if rest = [] then .ok (.vacant here step) else .error .notFound
      | some (.link target) => jump (target.start here) (target.steps ++ rest)
      | some _ => t.advance creating jump (here ++ [step]) rest := by
  have hstay : ¬ (step = [] ∨ step = Path.here) := not_or.mpr ⟨hstep.ne_nil, hstep.ne_here⟩
  have hslash : ¬ (creating = true ∧ rest = [[]]) := by
    rintro ⟨h1, h2⟩
    exact hc h1 h2
  rw [advance]
  exact (if_neg (not_not.mpr hd)).trans <| (if_neg hstay).trans <| (if_neg hstep.ne_up).trans <|
    (if_neg hslash).trans (if_neg (Nat.not_lt.mpr hstep.length_le))

theorem leads_of_advance {links : Nat} {jump : Location → List Bytes → Except Cause Spot}
    (hjump : ∀ l ss s, jump l ss = .ok s → ∃ k, links = k + 1 ∧ Leads t creating k l ss s)
    (h : t.advance creating jump here steps = .ok s) : Leads t creating links here steps s := by
  induction steps generalizing here with
  | nil =>
    rw [advance] at h
    cases h
    exact .done
  | cons step rest ih =>
    by_cases hd : t.node? here = some .directory
    case neg => rw [advance, if_pos hd] at h; cases h
    by_cases hstay : step = [] ∨ step = Path.here
    case pos =>
      rw [advance, if_neg (not_not.mpr hd), if_pos hstay] at h
      exact .stay hd hstay (ih h)
    by_cases hup : step = Path.up
    case pos =>
      rw [advance, if_neg (not_not.mpr hd), if_neg hstay, if_pos hup] at h
      subst hup
      exact .up hd (ih h)
    by_cases hc : creating = true ∧ rest = [[]]
    case pos =>
      rw [advance, if_neg (not_not.mpr hd), if_neg hstay, if_neg hup, if_pos hc] at h
      cases h
    by_cases hlen : nameLimit < step.length
    case pos =>
      rw [advance, if_neg (not_not.mpr hd), if_neg hstay, if_neg hup, if_neg hc, if_pos hlen] at h
      cases h
    rw [not_or] at hstay
    have hstep : Proceeds step := ⟨hstay.1, hstay.2, hup, Nat.le_of_not_lt hlen⟩
    have hc : creating = true → rest ≠ [[]] := by
      intro h1 h2
      exact hc ⟨h1, h2⟩
    rw [advance_proceeds hd hstep hc] at h
    cases hn : t.node? (here ++ [step]) with
    | none =>
      rw [hn] at h
      by_cases hrest : rest = []
      · subst hrest
        cases h
        exact .vacant hd hstep hn
      · simp [hrest] at h
    | some n =>
      rw [hn] at h
      cases n with
      | link target =>
        obtain ⟨k, rfl, hk⟩ := hjump _ _ _ h
        exact .jump hd hstep hc hn hk
      | directory => exact .into hd hstep hc hn (by simp) (ih h)
      | file content => exact .into hd hstep hc hn (by simp) (ih h)

theorem leads_of_follow {links : Nat} (h : t.follow creating links here steps = .ok s) :
    Leads t creating links here steps s := by
  induction links generalizing here steps s with
  | zero =>
    rw [follow] at h
    exact leads_of_advance (fun l ss s hs => by cases hs) h
  | succ links ih =>
    rw [follow] at h
    exact leads_of_advance (fun l ss s hs => ⟨links, rfl, ih hs⟩) h

theorem follow_eq_advance (t : Tree) (creating : Bool) (links : Nat) :
    ∃ jump, t.follow creating links = t.advance creating jump := by
  cases links with
  | zero => exact ⟨_, by rw [follow]⟩
  | succ links => exact ⟨_, by rw [follow]⟩

theorem Leads.follow_eq {links : Nat} (h : Leads t creating links here steps s) :
    t.follow creating links here steps = .ok s := by
  induction h with
  | @done links here =>
    obtain ⟨jump, hj⟩ := follow_eq_advance t creating links
    rw [hj, advance]
  | @stay links here step rest s hd hs _ ih =>
    obtain ⟨jump, hj⟩ := follow_eq_advance t creating links
    rw [hj] at ih ⊢
    rw [advance, if_neg (not_not.mpr hd), if_pos hs, ih]
  | @up links here rest s hd _ ih =>
    obtain ⟨jump, hj⟩ := follow_eq_advance t creating links
    rw [hj] at ih ⊢
    rw [advance, if_neg (not_not.mpr hd), if_neg (by decide), if_pos rfl, ih]
  | @vacant links here step hd hstep hn =>
    obtain ⟨jump, hj⟩ := follow_eq_advance t creating links
    rw [hj, advance_proceeds hd hstep (by simp), hn]
    rfl
  | @into links here step rest s n hd hstep hc hn hl _ ih =>
    obtain ⟨jump, hj⟩ := follow_eq_advance t creating links
    rw [hj] at ih ⊢
    rw [advance_proceeds hd hstep hc, hn]
    cases n with
    | link target => exact absurd rfl (hl target)
    | directory => exact ih
    | file content => exact ih
  | jump hd hstep hc hn _ ih =>
    rw [follow, advance_proceeds hd hstep hc, hn]
    exact ih

theorem follow_eq_ok_iff {links : Nat} :
    t.follow creating links here steps = .ok s ↔ Leads t creating links here steps s :=
  ⟨leads_of_follow, Leads.follow_eq⟩

/-- A path leads to a spot if the system takes the path and its steps lead there. -/
theorem spot_eq_ok_iff : t.spot creating here p = .ok s ↔
    (0 ∉ p ∧ p ≠ [] ∧ p.length < pathLimit) ∧ Leads t creating linkLimit (p.start here) p.steps s := by
  rw [spot]
  by_cases h0 : 0 ∈ p
  · simp [h0]
  by_cases hnil : p = []
  · simp [hnil]
  by_cases hlen : pathLimit ≤ p.length
  · rw [if_neg h0, if_neg hnil, if_pos hlen]
    constructor
    · intro h
      cases h
    · intro h
      omega
  · rw [if_neg h0, if_neg hnil, if_neg hlen, follow_eq_ok_iff]
    exact ⟨fun h => ⟨⟨h0, hnil, Nat.lt_of_not_le hlen⟩, h⟩, fun h => h.2⟩

/-! ## (2) Vacant spots -/

/-- A step as a path or a link's target has it: nothing in it ends a name. -/
def IsPiece (step : Bytes) : Prop := Path.slash ∉ step ∧ 0 ∉ step

theorem isPiece_of_mem_pieces (h : 0 ∉ p) : ∀ step ∈ Path.pieces p, IsPiece step := by
  induction p with
  | nil => simp [Path.pieces, IsPiece]
  | cons b p ih =>
    rw [List.mem_cons, not_or] at h
    have ih := ih h.2
    rw [Path.pieces]
    by_cases hb : b = Path.slash
    · rw [if_pos (beq_iff_eq.mpr hb)]
      exact List.forall_mem_cons.mpr ⟨by simp [IsPiece], ih⟩
    · rw [if_neg (fun h => hb (beq_iff_eq.mp h))]
      cases hp : Path.pieces p with
      | nil => simpa [IsPiece] using ⟨Ne.symm hb, h.1⟩
      | cons first rest =>
        rw [hp] at ih
        obtain ⟨hfirst, hrest⟩ := List.forall_mem_cons.mp ih
        refine List.forall_mem_cons.mpr ⟨?_, hrest⟩
        simpa [IsPiece] using ⟨⟨Ne.symm hb, hfirst.1⟩, h.1, hfirst.2⟩

theorem isPiece_of_mem_steps (h : 0 ∉ p) : ∀ step ∈ p.steps, IsPiece step := by
  intro step hs
  refine isPiece_of_mem_pieces h step ?_
  rw [Path.steps, List.mem_append] at hs
  rcases hs with hs | hs
  · exact (List.dropLast_sublist _).subset (List.mem_filter.mp hs).1
  · exact List.mem_of_getLast? (by simpa using hs)

theorem isSound_of_node? {l : Location} {n : Node} (h : t.node? l = some n) : n.IsSound := by
  rcases (t.node?_eq_some_iff).mp h with ⟨-, rfl⟩ | hm
  · trivial
  · exact t.wellFormed.sound _ hm

structure IsVacant (t : Tree) (dir : Location) (name : Bytes) : Prop where
  directory : t.node? dir = some .directory
  free : t.node? (dir ++ [name]) = none
  isName : IsName name

theorem Leads.isVacant {links : Nat} {dir : Location} {name : Bytes} (h : Leads t creating links here steps s)
    (hs : s = .vacant dir name) (hsteps : ∀ step ∈ steps, IsPiece step) : t.IsVacant dir name := by
  induction h with
  | done => cases hs
  | stay _ _ _ ih => exact ih hs fun step hm => hsteps step (List.mem_cons_of_mem _ hm)
  | up _ _ ih => exact ih hs fun step hm => hsteps step (List.mem_cons_of_mem _ hm)
  | vacant hd hstep hn =>
    cases hs
    obtain ⟨hslash, hnul⟩ := hsteps _ List.mem_cons_self
    exact ⟨hd, hn, hstep.ne_nil, hstep.ne_here, hstep.ne_up, hslash, hnul, hstep.length_le⟩
  | into _ _ _ _ _ _ ih => exact ih hs fun step hm => hsteps step (List.mem_cons_of_mem _ hm)
  | jump _ _ _ hn _ ih =>
    -- The target comes from the tree, so its steps are pieces for another reason.
    refine ih hs fun step hm => ?_
    rcases List.mem_append.mp hm with hm | hm
    · exact isPiece_of_mem_steps (isSound_of_node? hn).2 step hm
    · exact hsteps step (List.mem_cons_of_mem _ hm)

theorem spot_vacant {dir : Location} {name : Bytes} (h : t.spot creating here p = .ok (.vacant dir name)) :
    t.IsVacant dir name := by
  obtain ⟨⟨h0, -, -⟩, hl⟩ := spot_eq_ok_iff.mp h
  exact hl.isVacant rfl (isPiece_of_mem_steps h0)

/-- What leads to a spot for writing leads there for reading. -/
theorem Leads.reading {links : Nat} (h : Leads t creating links here steps s) : Leads t false links here steps s := by
  induction h with
  | done => exact .done
  | stay hd hs _ ih => exact .stay hd hs ih
  | up hd _ ih => exact .up hd ih
  | vacant hd hstep hn => exact .vacant hd hstep hn
  | into hd hstep _ hn hl _ ih => exact .into hd hstep (by simp) hn hl ih
  | jump hd hstep _ hn _ ih => exact .jump hd hstep (by simp) hn ih

theorem spot_reading (h : t.spot creating here p = .ok s) : t.spot false here p = .ok s := by
  obtain ⟨hp, hl⟩ := spot_eq_ok_iff.mp h
  exact spot_eq_ok_iff.mpr ⟨hp, hl.reading⟩

theorem resolve_eq_ok_iff {l : Location} : t.resolve here p = .ok l ↔ t.spot false here p = .ok (.occupied l) := by
  rw [resolve]
  rcases t.spot false here p with c | (k | ⟨dir, name⟩)
  · simp
  · simp
  · simp

/-! ## (3) Other trees -/

variable {t' : Tree}

structure Alike (t t' : Tree) : Prop where
  none : ∀ l, t.node? l = none → t'.node? l = none
  directory : ∀ l, t.node? l = some .directory → t'.node? l = some .directory
  link : ∀ l target, t.node? l = some (.link target) → t'.node? l = some (.link target)
  file : ∀ l content, t.node? l = some (.file content) → ∃ content', t'.node? l = some (.file content')

theorem Alike.of_node?_eq (h : ∀ l, t.node? l = t'.node? l) : Alike t t' where
  none l hl := by rw [← h, hl]
  directory l hl := by rw [← h, hl]
  link l target hl := by rw [← h, hl]
  file l content hl := ⟨content, by rw [← h, hl]⟩

theorem Alike.directory_iff (ha : Alike t t') {l : Location} :
    t'.node? l = some .directory ↔ t.node? l = some .directory := by
  refine ⟨fun h => ?_, ha.directory l⟩
  rcases hn : t.node? l with _ | (_ | content | target)
  · rw [ha.none l hn] at h
    cases h
  · rfl
  · obtain ⟨content', hn'⟩ := ha.file l content hn
    rw [hn'] at h
    cases h
  · rw [ha.link l target hn] at h
    cases h

theorem advance_alike (ha : Alike t t') (jump : Location → List Bytes → Except Cause Spot) (here : Location)
    (steps : List Bytes) : t'.advance creating jump here steps = t.advance creating jump here steps := by
  induction steps generalizing here with
  | nil => rfl
  | cons step rest ih =>
    rw [advance, advance]
    simp only [ne_eq, ha.directory_iff, ih]
    rcases hn : t.node? (here ++ [step]) with _ | (_ | content | target)
    · rw [ha.none _ hn]
    · rw [ha.directory _ hn]
    · obtain ⟨content', hn'⟩ := ha.file _ content hn
      rw [hn']
    · rw [ha.link _ target hn]

/-- The content of files does not lead anywhere else. -/
theorem follow_alike (ha : Alike t t') (links : Nat) : t'.follow creating links = t.follow creating links := by
  induction links with
  | zero =>
    funext here steps
    exact advance_alike ha _ here steps
  | succ links ih =>
    funext here steps
    rw [follow, follow, ih]
    exact advance_alike ha _ here steps

theorem spot_alike (ha : Alike t t') (here : Location) (p : Path) :
    t'.spot creating here p = t.spot creating here p := by
  unfold spot
  rw [follow_alike ha]

theorem resolve_alike (ha : Alike t t') (here : Location) (p : Path) : t'.resolve here p = t.resolve here p := by
  unfold resolve
  rw [spot_alike ha]

/-- A file put at the vacant spot is what the path then leads to. -/
theorem Leads.filled {links : Nat} {dir : Location} {name content : Bytes}
    (hkeep : ∀ l n, t.node? l = some n → t'.node? l = some n) (hnew : t'.node? (dir ++ [name]) = some (.file content))
    (h : Leads t creating links here steps s) (hs : s = .vacant dir name) :
    Leads t' creating links here steps (.occupied (dir ++ [name])) := by
  induction h with
  | done => cases hs
  | stay hd hstay _ ih => exact .stay (hkeep _ _ hd) hstay (ih hs)
  | up hd _ ih => exact .up (hkeep _ _ hd) (ih hs)
  | vacant hd hstep _ =>
    cases hs
    exact .into (hkeep _ _ hd) hstep (by simp) hnew (by simp) .done
  | into hd hstep hc hn hl _ ih => exact .into (hkeep _ _ hd) hstep hc (hkeep _ _ hn) hl (ih hs)
  | jump hd hstep hc hn _ ih => exact .jump (hkeep _ _ hd) hstep hc (hkeep _ _ hn) (ih hs)

theorem spot_filled {dir : Location} {name content : Bytes} (hkeep : ∀ l n, t.node? l = some n → t'.node? l = some n)
    (hnew : t'.node? (dir ++ [name]) = some (.file content)) (h : t.spot creating here p = .ok (.vacant dir name)) :
    t'.spot creating here p = .ok (.occupied (dir ++ [name])) := by
  obtain ⟨hp, hl⟩ := spot_eq_ok_iff.mp h
  exact spot_eq_ok_iff.mpr ⟨hp, hl.filled hkeep hnew rfl⟩

end Tree

end Attribution
