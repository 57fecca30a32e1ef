/-
  Attribution.Proofs.Rating — how the rating of an expression reads its text.

  (1) Blanks and parentheses at the ends of a text do not count (`strip_framed`), as
  the rating looks at the stripped text alone (`risk_eq`).

  (2) A text that says that the license is not a free one is rated so whatever else is
  in it (`risk_of_saysProprietary`). What says so stands between spaces and
  parentheses, so a text says it if one of its parts does (`saysProprietary_append_cons`).

  (3) An identifier without blanks is looked up as it is, and `unknown` is none of the
  identifiers that are known (`riskOfId_of_isUnknown`).
-/
import Attribution.Proofs.Splitting
import Attribution.Expression
import Mathlib.Data.List.Induction

namespace Attribution.Expression

open Text

/-! ## (1) The ends of a text -/

/-- The rating by equations: the stripped text decides. -/
theorem risk_eq (s : Text) : risk s =
    if isUnknown (strip s) then .unknown
    else if saysProprietary (strip s) then .proprietary
    else if mentions orWord (strip s) then .mostPermissive ((splitOn orWord (strip s)).map risk)
    else if mentions andWord (strip s) then .mostRestrictive ((splitOn andWord (strip s)).map risk)
    else riskOfId (baseId (strip s)) := by
  rw [risk]
  simp

/-- A character that is neither cut off nor a sign of grouping. -/
def isSolid (c : Char) : Bool := !isBlank c && c != '(' && c != ')'

structure Firm (s : Text) : Prop where
  head : ∃ c t, s = c :: t ∧ isSolid c = true
  last : ∃ t d, s = t ++ [d] ∧ isSolid d = true

theorem Firm.append {a b : Text} (ha : Firm a) (hb : Firm b) (m : Text) : Firm (a ++ m ++ b) := by
  obtain ⟨c, t, rfl, hc⟩ := ha.head
  obtain ⟨t', d, rfl, hd⟩ := hb.last
  exact ⟨⟨c, t ++ m ++ (t' ++ [d]), by simp, hc⟩, ⟨c :: t ++ m ++ t', d, by simp, hd⟩⟩

theorem isBlank_of_isSolid {c : Char} (h : isSolid c = true) : isBlank c = false := by
  simp only [isSolid, Bool.and_eq_true, Bool.not_eq_true'] at h
  exact h.1.1

theorem isSolid_of_isBlank {c : Char} (h : isBlank c = true) : isSolid c = false := by simp [isSolid, h]

theorem ne_paren_of_isSolid {c : Char} (h : isSolid c = true) : (c == '(') = false ∧ (c == ')') = false := by
  simp only [isSolid, Bool.and_eq_true, bne, Bool.not_eq_true'] at h
  exact ⟨h.1.2, h.2⟩

theorem dropWhile_append_cons {p : Char → Bool} {u s : Text} {c : Char} (hu : ∀ x ∈ u, p x = true)
    (hc : p c = false) : (u ++ c :: s).dropWhile p = c :: s := by
  rw [List.dropWhile_append_of_pos hu, List.dropWhile_cons_of_neg (by simp [hc])]

theorem dropEndWhile_snoc_append {p : Char → Bool} {u s : Text} {c : Char} (hu : ∀ x ∈ u, p x = true)
    (hc : p c = false) : dropEndWhile p (s ++ [c] ++ u) = s ++ [c] := by
  have hrev : (s ++ [c] ++ u).reverse = u.reverse ++ c :: s.reverse := by simp
  rw [dropEndWhile, hrev, dropWhile_append_cons (by simpa using hu) hc]
  simp

/-- A text between blanks is trimmed to itself. -/
theorem trim_append {u v s : Text} (hu : ∀ c ∈ u, isBlank c = true) (hv : ∀ c ∈ v, isBlank c = true)
    (hhead : ∃ c t, s = c :: t ∧ isBlank c = false) (hlast : ∃ t d, s = t ++ [d] ∧ isBlank d = false) :
    trim (u ++ s ++ v) = s := by
  obtain ⟨c, t, rfl, hc⟩ := hhead
  obtain ⟨t', d, hd, hd'⟩ := hlast
  have hstart : trimStart (u ++ c :: t ++ v) = c :: t ++ v := by
    rw [trimStart, List.append_assoc]
    exact dropWhile_append_cons hu hc
  rw [trim, trimEnd, hstart, hd]
  exact dropEndWhile_snoc_append hv hd'

/-- Blanks and parentheses around a firm text are cut off. -/
theorem strip_framed {u v s : Text} (m n : Nat) (hu : ∀ c ∈ u, isBlank c = true) (hv : ∀ c ∈ v, isBlank c = true)
    (hs : Firm s) : strip (u ++ List.replicate m '(' ++ s ++ (List.replicate n ')' ++ v)) = s := by
  obtain ⟨⟨c, t, hct, hc⟩, ⟨t', d, htd, hd⟩⟩ := hs
  have hinner : trim (u ++ List.replicate m '(' ++ s ++ (List.replicate n ')' ++ v)) =
      List.replicate m '(' ++ (s ++ List.replicate n ')') := by
    have : u ++ List.replicate m '(' ++ s ++ (List.replicate n ')' ++ v) =
        u ++ (List.replicate m '(' ++ (s ++ List.replicate n ')')) ++ v := by simp
    rw [this]
    refine trim_append hu hv ?_ ?_
    · cases m with
      | zero => exact ⟨c, t ++ List.replicate n ')', by simp [hct], isBlank_of_isSolid hc⟩
      | succ m => exact ⟨'(', List.replicate m '(' ++ (s ++ List.replicate n ')'), rfl, rfl⟩
    · cases n with
      | zero => exact ⟨List.replicate m '(' ++ t', d, by simp [htd], isBlank_of_isSolid hd⟩
      | succ n =>
        exact ⟨List.replicate m '(' ++ (s ++ List.replicate n ')'), ')', by simp [List.replicate_succ'], rfl⟩
  have hopen : (List.replicate m '(' ++ (s ++ List.replicate n ')')).dropWhile (· == '(') =
      s ++ List.replicate n ')' := by
    rw [hct]
    exact dropWhile_append_cons (fun x hx => by simp [(List.mem_replicate.mp hx).2]) (ne_paren_of_isSolid hc).1
  have hclose : dropEndWhile (· == ')') (s ++ List.replicate n ')') = s := by
    rw [htd]
    exact dropEndWhile_snoc_append (fun x hx => by simp [(List.mem_replicate.mp hx).2]) (ne_paren_of_isSolid hd).2
  rw [strip, hinner, hopen, hclose]
  simpa using trim_append (u := []) (v := []) (by simp) (by simp) ⟨c, t, hct, isBlank_of_isSolid hc⟩
    ⟨t', d, htd, isBlank_of_isSolid hd⟩

/-- What is cut off at the ends of a text is not part of its words. -/
theorem mem_words_of_framed {w u s v : Text} (hw : Firm w) (hu : ∀ c ∈ u, isSolid c = false)
    (hv : ∀ c ∈ v, isSolid c = false) (h : w ∈ words (u ++ s ++ v)) : w ∈ words s := by
  obtain ⟨c, t, hct, hc⟩ := hw.head
  obtain ⟨t', d, htd, hd⟩ := hw.last
  have hne : w ≠ [] := by simp [hct]
  have hfront : w ∈ words (s ++ v) := by
    rw [List.append_assoc] at h
    induction u with
    | nil => exact h
    | cons b u ih =>
      refine ih (fun x hx => hu x (List.mem_cons_of_mem b hx)) (mem_words_of_cons h hne fun r hr => ?_)
      rw [hct] at hr
      obtain ⟨rfl, -⟩ := List.cons.inj hr
      rw [hu c List.mem_cons_self] at hc
      cases hc
  clear h
  induction v using List.reverseRecOn with
  | nil => simpa using hfront
  | append_singleton v b ih =>
    refine ih (fun x hx => hv x (List.mem_append_left _ hx)) ?_
    rw [← List.append_assoc] at hfront
    refine mem_words_of_snoc hfront hne fun r hr => ?_
    rw [htd] at hr
    obtain ⟨-, rfl⟩ := List.append_inj' hr rfl |>.imp id (fun h => List.cons.inj h |>.1)
    rw [hv d (by simp)] at hd
    cases hd

/-! ## (2) Saying that a license is not free -/

/-- A character that no word against free licenses has in it, in any case. -/
def IsMute (c : Char) : Prop := c.toLower ∉ "proprietary".toList ∧ c.toLower ∉ "commercial".toList

instance (c : Char) : Decidable (IsMute c) := by unfold IsMute; infer_instance

theorem saysProprietary_append_cons {c : Char} (hc : IsMute c) (a b : Text) :
    saysProprietary (a ++ c :: b) = (saysProprietary a || saysProprietary b) := by
  have hlow : lower (a ++ c :: b) = lower a ++ c.toLower :: lower b := by simp [lower]
  rw [saysProprietary, hlow, mentions_append_cons hc.1, mentions_append_cons hc.2]
  simp only [saysProprietary, Bool.or_assoc, Bool.or_left_comm]

theorem saysProprietary_nil : saysProprietary [] = false := by decide

theorem saysProprietary_spaced {w : Text} (hw : saysProprietary w = false) (a b : Text) :
    saysProprietary (a ++ spaced w ++ b) = (saysProprietary a || saysProprietary b) := by
  rw [append_spaced, saysProprietary_append_cons (by decide), saysProprietary_append_cons (by decide), hw,
    Bool.false_or]

theorem saysProprietary_part {s t : Text} (hst : s <:+: t) (h : saysProprietary s = true) :
    saysProprietary t = true := by
  have hlow : lower s <:+: lower t := hst.map _
  simp only [saysProprietary, Bool.or_eq_true] at h ⊢
  exact h.imp (mentions_mono · hlow) (mentions_mono · hlow)

theorem not_saysProprietary_part {s t : Text} (hst : s <:+: t) (h : saysProprietary t = false) :
    saysProprietary s = false := by
  rw [← Bool.not_eq_true] at h ⊢
  intro hs
  exact h (saysProprietary_part hst hs)

theorem isMute_of_isBlank {c : Char} (h : isBlank c = true) : IsMute c := by
  have hlow : c.toLower = c := by
    simp only [isBlank, Bool.or_eq_true, Bool.and_eq_true, decide_eq_true_eq, beq_iff_eq] at h
    unfold Char.toLower
    rw [dif_neg]
    rintro ⟨hge, hle⟩
    have hge : 65 ≤ c.toNat := UInt32.le_iff_toNat_le.mp hge
    have hle : c.toNat ≤ 90 := UInt32.le_iff_toNat_le.mp hle
    omega
  have hnone : ∀ w : Text, w.all (fun x => !isBlank x) = true → c.toLower ∉ w := by
    intro w hw hc
    rw [hlow] at hc
    have := List.all_eq_true.mp hw c hc
    rw [h] at this
    cases this
  exact ⟨hnone _ (by decide), hnone _ (by decide)⟩

theorem saysProprietary_dropWhile {p : Char → Bool} (hp : ∀ c, p c = true → IsMute c) (s : Text) :
    saysProprietary (s.dropWhile p) = saysProprietary s := by
  induction s with
  | nil => rfl
  | cons c s ih =>
    by_cases hc : p c = true
    · have := saysProprietary_append_cons (hp c hc) [] s
      rw [saysProprietary_nil, Bool.false_or] at this
      rw [List.dropWhile_cons_of_pos hc, ih]
      exact this.symm
    · rw [List.dropWhile_cons_of_neg hc]

theorem saysProprietary_append_of_mute {u : Text} (hu : ∀ c ∈ u, IsMute c) (a : Text) :
    saysProprietary (a ++ u) = saysProprietary a := by
  induction u generalizing a with
  | nil => rw [List.append_nil]
  | cons c u ih =>
    have := ih (fun x hx => hu x (List.mem_cons_of_mem c hx)) (a ++ [c])
    rw [List.append_assoc] at this
    rw [show a ++ c :: u = a ++ ([c] ++ u) from rfl, this, saysProprietary_append_cons (hu c List.mem_cons_self),
      saysProprietary_nil, Bool.or_false]

theorem saysProprietary_dropEndWhile {p : Char → Bool} (hp : ∀ c, p c = true → IsMute c) (s : Text) :
    saysProprietary (dropEndWhile p s) = saysProprietary s := by
  have hs : s = dropEndWhile p s ++ (s.reverse.takeWhile p).reverse := by
    rw [dropEndWhile, ← List.reverse_append, List.takeWhile_append_dropWhile, List.reverse_reverse]
  have hmute : ∀ c ∈ (s.reverse.takeWhile p).reverse, IsMute c := by
    intro c hc
    exact hp c (List.all_eq_true.mp List.all_takeWhile c (List.mem_reverse.mp hc))
  exact (saysProprietary_append_of_mute hmute _).symm.trans (congrArg saysProprietary hs.symm)

theorem saysProprietary_strip (s : Text) : saysProprietary (strip s) = saysProprietary s := by
  have hopen : ∀ c, (c == '(') = true → IsMute c := by
    intro c hc
    rw [beq_iff_eq.mp hc]
    decide
  have hclose : ∀ c, (c == ')') = true → IsMute c := by
    intro c hc
    rw [beq_iff_eq.mp hc]
    decide
  have hblank : ∀ c, isBlank c = true → IsMute c := fun c => isMute_of_isBlank
  rw [strip, trim, trimEnd, trimStart, saysProprietary_dropEndWhile hblank, saysProprietary_dropWhile hblank,
    saysProprietary_dropEndWhile hclose, saysProprietary_dropWhile hopen, trim, trimEnd, trimStart,
    saysProprietary_dropEndWhile hblank, saysProprietary_dropWhile hblank]

theorem isUnknown_of_saysProprietary {s : Text} (h : saysProprietary s = true) : isUnknown s = false := by
  rw [← Bool.not_eq_true]
  intro hu
  rw [isUnknown, Bool.or_eq_true, List.isEmpty_iff, beq_iff_eq] at hu
  rcases hu with rfl | hu
  · cases h
  · rw [saysProprietary, hu] at h
    revert h
    decide

theorem risk_of_saysProprietary {s : Text} (h : saysProprietary s = true) : risk s = .proprietary := by
  rw [← saysProprietary_strip] at h
  rw [risk_eq, isUnknown_of_saysProprietary h, h]
  rfl

/-! ## (3) Identifiers -/

theorem trim_eq_self {s : Text} (h : ∀ c ∈ s, isBlank c = false) : trim s = s := by
  rcases List.eq_nil_or_concat s with rfl | ⟨t, d, rfl⟩
  · rfl
  · have hhead : ∃ c r, t ++ [d] = c :: r ∧ isBlank c = false := by
      cases t with
      | nil => exact ⟨d, [], rfl, h d (by simp)⟩
      | cons c t => exact ⟨c, t ++ [d], rfl, h c (by simp)⟩
    simpa using trim_append (u := []) (v := []) (by simp) (by simp) hhead ⟨t, d, rfl, h d (by simp)⟩

/-- Blanks behind an identifier do not count. -/
theorem riskOfId_append_blanks {s v : Text} (hs : ∀ c ∈ s, isBlank c = false) (hne : s ≠ [])
    (hv : ∀ c ∈ v, isBlank c = true) : riskOfId (s ++ v) = riskOfId s := by
  obtain ⟨t, d, hd⟩ := (List.eq_nil_or_concat s).resolve_left hne
  rw [List.concat_eq_append] at hd
  obtain ⟨c, r, hc⟩ := List.exists_cons_of_ne_nil hne
  have : trim (s ++ v) = s := by
    simpa using trim_append (u := []) (by simp) hv ⟨c, r, hc, hs c (by simp [hc])⟩ ⟨t, d, hd, hs d (by simp [hd])⟩
  rw [riskOfId, riskOfId, this, trim_eq_self hs]

theorem isUnknown_of_space {s : Text} (h : ' ' ∈ s) : isUnknown s = false := by
  have hlow : ' ' ∈ lower s := List.mem_map.mpr ⟨' ', h, rfl⟩
  rw [isUnknown, Bool.or_eq_false_iff]
  constructor
  · rw [← Bool.not_eq_true, List.isEmpty_iff]
    exact List.ne_nil_of_mem h
  · rw [← Bool.not_eq_true, beq_iff_eq]
    intro hu
    rw [hu] at hlow
    exact absurd hlow (by decide)

/-- The word `unknown` is none of the identifiers. -/
theorem riskOfId_of_isUnknown {s : Text} (hs : ∀ c ∈ s, isBlank c = false) (h : isUnknown s = true) :
    riskOfId s = .unknown := by
  have hkey : dropEndWhile (· == '+') (trim s) = s := by
    rw [trim_eq_self hs]
    rw [isUnknown, Bool.or_eq_true, List.isEmpty_iff, beq_iff_eq] at h
    rcases h with rfl | h
    · rfl
    · rcases List.eq_nil_or_concat s with rfl | ⟨t, d, rfl⟩
      · rfl
      · have hd : d.toLower = 'n' := by
          have := congrArg List.getLast? h
          simpa [lower] using this
        have hplus : (d == '+') = false := by
          rw [← Bool.not_eq_true, beq_iff_eq]
          rintro rfl
          revert hd
          decide
        have := dropEndWhile_snoc_append (p := (· == '+')) (u := []) (s := t) (by simp) hplus
        simpa using this
  have hnot : ∀ ids : List Text, (∀ id ∈ ids, isUnknown id = false) → s ∉ ids := by
    intro ids hids hmem
    rw [hids s hmem] at h
    cases h
  unfold riskOfId
  rw [hkey, if_neg (hnot _ (by decide)), if_neg (hnot _ (by decide)), if_neg (hnot _ (by decide))]

end Attribution.Expression
