/-
  Attribution.Proofs.Chain — expressions as the rating sees them.

  (1) A chain is a row of atoms with OR or AND between them. Parentheses and blanks
  stand at the links and around the chain, where they are cut off: they belong to no
  atom and do not group. Every spelled formula is such a chain with the formula's
  alternatives (`Spells.exists_framed`).

  (2) A chain is cut at every link of one kind, and only there (`splitOn_whole`,
  `splitOn_join`), because the words at the links are not words of the atoms
  (`key_not_mem_words`). So what holds of the pieces is shown by induction over the
  cuts (`cut_induction`).

  (3) A chain without OR is rated by its most restrictive atom
  (`alternatives_of_lacks`). The pieces between the ORs of any chain are its
  alternatives (`map_risk_splitOn`), and the best of them is its risk (`risk_text`).
-/
import Attribution.Proofs.Formula

namespace Attribution.Expression

open Text Risk

/-! ## (1) Chains -/

inductive Atom where
  | id (i : Identifier)
  | exception (i : Identifier) (u v : Blanks) (x : Identifier)

namespace Atom

def text : Atom → Text
  | id i => i.text
  | exception i u v x => i.text ++ u.val ++ withWord ++ (v.val ++ x.text)

def risk : Atom → Risk
  | id i => riskOfId i.text
  | exception i _ _ _ => riskOfId i.text

end Atom

inductive Joint where
  | or
  | and
  deriving DecidableEq

namespace Joint

def key : Joint → Text
  | or => "OR".toList
  | and => "AND".toList

def word (j : Joint) : Text := spaced j.key

theorem word_or : word or = orWord := rfl

theorem word_and : word and = andWord := rfl

theorem key_ne_nil (j : Joint) : j.key ≠ [] := by cases j <;> decide

theorem space_not_mem_key (j : Joint) : ' ' ∉ j.key := by cases j <;> decide

theorem key_injective {j j' : Joint} (h : j.key = j'.key) : j = j' := by
  cases j <;> cases j' <;> first | rfl | exact absurd h (by decide)

end Joint

def opening (u : Blanks) (m : Nat) : Text := u.val ++ List.replicate m '('

def closing (n : Nat) (v : Blanks) : Text := List.replicate n ')' ++ v.val

structure Link where
  closes : Nat
  before : Blanks
  joint : Joint
  after : Blanks
  opens : Nat

def Link.text (l : Link) : Text := closing l.closes l.before ++ l.joint.word ++ opening l.after l.opens

structure Chain where
  first : Atom
  rest : List (Link × Atom)

/-- The alternatives that come from a risk and what follows it. -/
def alternativesFrom (r : Risk) : List (Link × Atom) → List Risk
  | [] => [r]
  | (l, k) :: rest => match l.joint with
    | .or => r :: alternativesFrom k.risk rest
    | .and => beside [r] (alternativesFrom k.risk rest)

namespace Chain

def text (c : Chain) : Text := c.first.text ++ c.rest.flatMap fun x => x.1.text ++ x.2.text

def atoms (c : Chain) : List Atom := c.first :: c.rest.map Prod.snd

def alternatives (c : Chain) : List Risk := alternativesFrom c.first.risk c.rest

end Chain

structure Framed where
  after : Blanks
  opens : Nat
  chain : Chain
  closes : Nat
  before : Blanks

namespace Framed

def text (f : Framed) : Text := opening f.after f.opens ++ f.chain.text ++ closing f.closes f.before

def join (f : Framed) (j : Joint) (g : Framed) : Framed :=
  ⟨f.after, f.opens,
    ⟨f.chain.first, f.chain.rest ++ (⟨f.closes, f.before, j, g.after, g.opens⟩, g.chain.first) :: g.chain.rest⟩,
    g.closes, g.before⟩

theorem text_join (f : Framed) (j : Joint) (g : Framed) : (f.join j g).text = f.text ++ j.word ++ g.text := by
  simp [text, join, Chain.text, Link.text]

def followed (f : Framed) (u : Blanks) : Framed := { f with before := u }

def preceded (f : Framed) (u : Blanks) : Framed := { f with after := u }

theorem text_followed {f : Framed} (hf : f.before = noBlanks) (u : Blanks) :
    (f.followed u).text = f.text ++ u.val := by
  simp [text, followed, closing, hf, noBlanks]

theorem text_preceded {f : Framed} (hf : f.after = noBlanks) (u : Blanks) :
    (f.preceded u).text = u.val ++ f.text := by
  simp [text, preceded, opening, hf, noBlanks]

def enclosed (f : Framed) : Framed := ⟨noBlanks, f.opens + 1, f.chain, f.closes + 1, noBlanks⟩

theorem text_enclosed {f : Framed} (ha : f.after = noBlanks) (hb : f.before = noBlanks) :
    f.enclosed.text = '(' :: f.text ++ [')'] := by
  rw [text, text, enclosed, opening, opening, closing, closing, ha, hb, List.replicate_succ, List.replicate_succ']
  simp [noBlanks]

end Framed

theorem alternativesFrom_ne_nil (r : Risk) (rest : List (Link × Atom)) : alternativesFrom r rest ≠ [] := by
  match rest with
  | [] => simp [alternativesFrom]
  | (l, k) :: rest =>
    rw [alternativesFrom]
    cases l.joint with
    | or => simp
    | and => exact beside_ne_nil _ (by simp)

theorem alternativesFrom_or (r : Risk) (rest : List (Link × Atom)) {l : Link} (hl : l.joint = .or) (k : Atom)
    (rest' : List (Link × Atom)) :
    alternativesFrom r (rest ++ (l, k) :: rest') = alternativesFrom r rest ++ alternativesFrom k.risk rest' := by
  induction rest generalizing r with
  | nil => simp [alternativesFrom, hl]
  | cons x rest ih =>
    obtain ⟨l', k'⟩ := x
    rw [List.cons_append, alternativesFrom, alternativesFrom, ih]
    cases l'.joint with
    | or => rfl
    | and =>
      obtain ⟨s, ss, hs⟩ := List.exists_cons_of_ne_nil (alternativesFrom_ne_nil k'.risk rest)
      simp only [hs]
      rfl

theorem alternativesFrom_and (r : Risk) (rest : List (Link × Atom)) {l : Link} (hl : l.joint = .and) (k : Atom)
    (rest' : List (Link × Atom)) :
    alternativesFrom r (rest ++ (l, k) :: rest') =
      beside (alternativesFrom r rest) (alternativesFrom k.risk rest') := by
  induction rest generalizing r with
  | nil => simp [alternativesFrom, hl]
  | cons x rest ih =>
    obtain ⟨l', k'⟩ := x
    rw [List.cons_append, alternativesFrom, alternativesFrom, ih]
    cases l'.joint with
    | or => exact (beside_append [r] _ (alternativesFrom_ne_nil _ _)).symm
    | and => exact (beside_assoc (alternativesFrom_ne_nil _ _)).symm

/-- Every spelled formula is a chain with the same alternatives. -/
theorem Formula.Spells.exists_framed {p : Bool} {e : Formula} {s : Text} (h : Spells p e s) :
    ∃ f : Framed, f.text = s ∧ f.after = noBlanks ∧ f.before = noBlanks ∧
      f.chain.alternatives = e.alternatives := by
  induction h with
  | id i => exact ⟨⟨noBlanks, 0, ⟨.id i, []⟩, 0, noBlanks⟩, by
      simp [Framed.text, Chain.text, Atom.text, opening, closing, noBlanks], rfl, rfl, rfl⟩
  | exception i x u v => exact ⟨⟨noBlanks, 0, ⟨.exception i u v x, []⟩, 0, noBlanks⟩, by
      simp [Framed.text, Chain.text, Atom.text, opening, closing, noBlanks], rfl, rfl, rfl⟩
  | or u v _ _ iha ihb =>
    obtain ⟨f, rfl, hfa, hfb, hf⟩ := iha
    obtain ⟨g, rfl, hga, hgb, hg⟩ := ihb
    refine ⟨(f.followed u).join .or (g.preceded v), ?_, hfa, hgb, ?_⟩
    · rw [Framed.text_join, Framed.text_followed hfb, Framed.text_preceded hga]
      rfl
    · rw [Formula.alternatives, ← hf, ← hg]
      exact alternativesFrom_or _ _ rfl _ _
  | and u v _ _ iha ihb =>
    obtain ⟨f, rfl, hfa, hfb, hf⟩ := iha
    obtain ⟨g, rfl, hga, hgb, hg⟩ := ihb
    refine ⟨(f.followed u).join .and (g.preceded v), ?_, hfa, hgb, ?_⟩
    · rw [Framed.text_join, Framed.text_followed hfb, Framed.text_preceded hga]
      rfl
    · rw [Formula.alternatives, ← hf, ← hg]
      exact alternativesFrom_and _ _ rfl _ _
  | group _ ih =>
    obtain ⟨f, rfl, ha, hb, hf⟩ := ih
    exact ⟨f.enclosed, Framed.text_enclosed ha hb, rfl, rfl, hf⟩

/-! ## (2) Cutting at one kind of link -/

theorem Atom.firm (k : Atom) : Firm k.text := by
  cases k with
  | id i => exact i.firm
  | exception i u v x =>
    have := i.firm.append x.firm (u.val ++ withWord ++ v.val)
    simpa [Atom.text] using this

theorem Chain.firm (k : Atom) (rest : List (Link × Atom)) : Firm (Chain.text ⟨k, rest⟩) := by
  induction rest generalizing k with
  | nil => simpa [Chain.text] using k.firm
  | cons x rest ih => simpa [Chain.text] using k.firm.append (ih x.2) x.1.text

theorem Joint.firm (j : Joint) : Firm j.key := by
  cases j with
  | or => exact ⟨⟨'O', ['R'], rfl, rfl⟩, ⟨['O'], 'R', rfl, rfl⟩⟩
  | and => exact ⟨⟨'A', ['N', 'D'], rfl, rfl⟩, ⟨['A', 'N'], 'D', rfl, rfl⟩⟩

theorem Joint.key_mem_keywords (j : Joint) : j.key ∈ keywords := by cases j <;> decide

theorem not_isSolid_of_mem_opening {u : Blanks} {m : Nat} {c : Char} (hc : c ∈ opening u m) : isSolid c = false := by
  rcases List.mem_append.mp hc with hc | hc
  · exact isSolid_of_isBlank (u.property c hc)
  · rw [(List.mem_replicate.mp hc).2]
    rfl

theorem not_isSolid_of_mem_closing {n : Nat} {v : Blanks} {c : Char} (hc : c ∈ closing n v) : isSolid c = false := by
  rcases List.mem_append.mp hc with hc | hc
  · rw [(List.mem_replicate.mp hc).2]
    rfl
  · exact isSolid_of_isBlank (v.property c hc)

theorem Identifier.key_not_mem_words (i : Identifier) (j : Joint) : j.key ∉ words i.text := by
  intro h
  rw [words_of_no_space i.space_not_mem, List.mem_singleton] at h
  exact i.notKeyword (h ▸ j.key_mem_keywords)

/-- The words of an atom are not those at the links. -/
theorem Atom.key_not_mem_words (k : Atom) (j : Joint) : j.key ∉ words k.text := by
  cases k with
  | id i => exact i.key_not_mem_words j
  | exception i u v x =>
    intro h
    have hblank : ∀ b : Blanks, ∀ c ∈ b.val, isSolid c = false := by
      intro b c hc
      exact isSolid_of_isBlank (b.property c hc)
    have hwords : words (Atom.text (.exception i u v x)) =
        words ([] ++ i.text ++ u.val) ++ "WITH".toList :: words (v.val ++ x.text ++ []) := by
      rw [Atom.text, show withWord = spaced "WITH".toList from rfl, words_append_spaced (by decide), List.nil_append,
        List.append_nil]
    rw [hwords, List.mem_append, List.mem_cons] at h
    rcases h with h | h | h
    · exact i.key_not_mem_words j (mem_words_of_framed j.firm (by simp) (hblank u) h)
    · revert h
      cases j <;> decide
    · exact x.key_not_mem_words j (mem_words_of_framed j.firm (hblank v) (by simp) h)

namespace Framed

def Lacks (j : Joint) (f : Framed) : Prop := ∀ x ∈ f.chain.rest, x.1.joint ≠ j

theorem lacks_join {f g : Framed} {j j' : Joint} :
    (f.join j' g).Lacks j ↔ f.Lacks j ∧ j' ≠ j ∧ g.Lacks j := by
  simp only [Lacks, join, List.forall_mem_append, List.forall_mem_cons]

theorem words_join (f : Framed) (j : Joint) (g : Framed) :
    words (f.join j g).text = words f.text ++ j.key :: words g.text := by
  rw [text_join, Joint.word, words_append_spaced j.space_not_mem_key]

/-- A chain with links is its first atom and the rest, joined. -/
theorem eq_join (u : Blanks) (m : Nat) (k : Atom) (l : Link) (k' : Atom) (rest : List (Link × Atom)) (n : Nat)
    (v : Blanks) : (⟨u, m, ⟨k, (l, k') :: rest⟩, n, v⟩ : Framed) =
      join ⟨u, m, ⟨k, []⟩, l.closes, l.before⟩ l.joint ⟨l.after, l.opens, ⟨k', rest⟩, n, v⟩ := rfl

theorem key_not_mem_words_single (u : Blanks) (m : Nat) (k : Atom) (n : Nat) (v : Blanks) (j : Joint) :
    j.key ∉ words (text ⟨u, m, ⟨k, []⟩, n, v⟩) := by
  intro h
  have htext : text ⟨u, m, ⟨k, []⟩, n, v⟩ = opening u m ++ k.text ++ closing n v := by
    simp [text, Chain.text]
  rw [htext] at h
  exact k.key_not_mem_words j (mem_words_of_framed j.firm (fun _ => not_isSolid_of_mem_opening)
    (fun _ => not_isSolid_of_mem_closing) h)

/-- A chain has only the words of its links beside those of its atoms. -/
theorem key_not_mem_words {f : Framed} {j : Joint} (h : f.Lacks j) : j.key ∉ words f.text := by
  obtain ⟨u, m, ⟨k, rest⟩, n, v⟩ := f
  induction rest generalizing u m k with
  | nil => exact key_not_mem_words_single u m k n v j
  | cons x rest ih =>
    obtain ⟨l, k'⟩ := x
    rw [eq_join] at h ⊢
    obtain ⟨-, hl, hrest⟩ := lacks_join.mp h
    rw [words_join, List.mem_append, List.mem_cons]
    rintro (hw | hw | hw)
    · exact key_not_mem_words_single _ _ _ _ _ j hw
    · exact hl (Joint.key_injective hw).symm
    · exact ih _ _ _ hrest hw

/-- A chain that has a link of one kind is cut at the first of them. -/
theorem exists_cut (j : Joint) (f : Framed) (h : ¬ f.Lacks j) :
    ∃ g g' : Framed, f = g.join j g' ∧ g.Lacks j ∧ g'.chain.rest.length < f.chain.rest.length := by
  obtain ⟨u, m, ⟨k, rest⟩, n, v⟩ := f
  induction rest generalizing u m k with
  | nil => exact absurd (by simp [Lacks]) h
  | cons x rest ih =>
    obtain ⟨l, k'⟩ := x
    rw [eq_join] at h ⊢
    by_cases hl : l.joint = j
    · exact ⟨_, _, by rw [hl], by simp [Lacks], by simp [join]⟩
    · have hrest : ¬ Lacks j ⟨l.after, l.opens, ⟨k', rest⟩, n, v⟩ := by
        intro hrest
        exact h (lacks_join.mpr ⟨by simp [Lacks], hl, hrest⟩)
      obtain ⟨g, g', hg, hlacks, hlt⟩ := ih _ _ _ hrest
      rw [hg] at hlt ⊢
      refine ⟨join ⟨u, m, ⟨k, []⟩, l.closes, l.before⟩ l.joint g, g', by simp [join],
        lacks_join.mpr ⟨by simp [Lacks], hl, hlacks⟩, ?_⟩
      simp only [join, List.length_append, List.length_cons]
      omega

/-- Induction over the pieces between the links of one kind. -/
theorem cut_induction (j : Joint) {P : Framed → Prop} (whole : ∀ f, f.Lacks j → P f)
    (cut : ∀ g g' : Framed, g.Lacks j → P g' → P (g.join j g')) (f : Framed) : P f := by
  by_cases h : f.Lacks j
  · exact whole f h
  · obtain ⟨g, g', rfl, hg, hlt⟩ := exists_cut j f h
    exact cut g g' hg (cut_induction j whole cut g')
  termination_by f.chain.rest.length

theorem mentions_of_lacks {f : Framed} {j : Joint} (h : f.Lacks j) : mentions j.word f.text = false :=
  mentions_eq_false_iff.mpr fun hin => key_not_mem_words h (mem_words_of_spaced j.space_not_mem_key hin)

theorem mentions_of_not_lacks {f : Framed} {j : Joint} (h : ¬ f.Lacks j) : mentions j.word f.text = true := by
  obtain ⟨g, g', rfl, -, -⟩ := exists_cut j f h
  rw [mentions_iff, text_join]
  exact ⟨g.text, g'.text, rfl⟩

theorem splitOn_whole {f : Framed} {j : Joint} (h : f.Lacks j) : splitOn j.word f.text = [f.text] :=
  splitOn_eq_self (mentions_eq_false_iff.mp (mentions_of_lacks h))

theorem splitOn_join {f : Framed} {j : Joint} (h : f.Lacks j) (g : Framed) :
    splitOn j.word (f.join j g).text = f.text :: splitOn j.word g.text := by
  rw [text_join, List.append_assoc]
  refine splitOn_append_sep (by simp [Joint.word, spaced]) (fun hin => key_not_mem_words h ?_) g.text
  exact mem_words_of_spaced_dropLast j.space_not_mem_key j.key_ne_nil hin

/-! ## (3) The risk of a chain -/

def bare (f : Framed) : Framed := ⟨noBlanks, 0, f.chain, 0, noBlanks⟩

theorem text_bare (f : Framed) : f.bare.text = f.chain.text := by simp [bare, text, opening, closing, noBlanks]

theorem strip_text (f : Framed) : strip f.text = f.bare.text := by
  rw [text_bare]
  exact strip_framed f.opens f.closes f.after.property f.before.property (Chain.firm _ _)

/-- A part of the chain says nothing that the chain does not say. -/
theorem not_saysProprietary_join {f g : Framed} {j : Joint} (h : saysProprietary (f.join j g).text = false) :
    saysProprietary f.text = false ∧ saysProprietary g.text = false := by
  rw [text_join] at h
  exact ⟨not_saysProprietary_part ⟨[], j.word ++ g.text, by simp⟩ h,
    not_saysProprietary_part ⟨f.text ++ j.word, [], by simp⟩ h⟩

theorem not_saysProprietary_bare {f : Framed} (h : saysProprietary f.text = false) :
    saysProprietary f.bare.text = false := by
  rwa [← strip_text, saysProprietary_strip]

/-- A chain with a link is not the word for an unknown license. -/
theorem isUnknown_text {f : Framed} (h : f.chain.rest ≠ []) : isUnknown f.text = false := by
  obtain ⟨u, m, ⟨k, rest⟩, n, v⟩ := f
  obtain ⟨⟨l, k'⟩, rest, rfl⟩ := List.exists_cons_of_ne_nil h
  have hspace : ' ' ∈ text ⟨u, m, ⟨k, (l, k') :: rest⟩, n, v⟩ := by
    simp [text, Chain.text, Link.text, Joint.word, spaced]
  exact isUnknown_of_space hspace

/-- The exception of an identifier does not count. -/
theorem riskOfId_baseId (k : Atom) : riskOfId (baseId k.text) = k.risk := by
  cases k with
  | id i =>
    have : splitOn withWord i.text = [i.text] :=
      splitOn_eq_self fun h => i.space_not_mem (h.subset (by decide))
    rw [Atom.text, baseId, this]
    rfl
  | exception i u v x =>
    have hno : ¬ withWord <:+: (i.text ++ u.val) ++ withWord.dropLast := by
      intro hin
      have hw : "WITH".toList ∈ words ([] ++ i.text ++ u.val) :=
        mem_words_of_spaced_dropLast (by decide) (by decide) hin
      have := mem_words_of_framed ⟨⟨'W', "ITH".toList, rfl, rfl⟩, ⟨"WIT".toList, 'H', rfl, rfl⟩⟩ (by simp)
        (fun c hc => isSolid_of_isBlank (u.property c hc)) hw
      rw [words_of_no_space i.space_not_mem, List.mem_singleton] at this
      exact i.notKeyword (this ▸ by decide)
    rw [Atom.text, baseId, List.append_assoc (i.text ++ u.val), splitOn_append_sep (by decide) hno, List.headD_cons,
      riskOfId_append_blanks i.isBlank_of_mem i.ne_nil u.property]
    rfl

theorem risk_single {f : Framed} (hrest : f.chain.rest = []) (h : saysProprietary f.text = false) :
    risk f.text = f.chain.first.risk := by
  have hno : ∀ j : Joint, mentions j.word f.bare.text = false := by
    intro j
    exact mentions_of_lacks (by simp [Lacks, bare, hrest])
  have htext : f.bare.text = f.chain.first.text := by simp [text_bare, Chain.text, hrest]
  rw [risk_eq, strip_text]
  cases hu : isUnknown f.bare.text with
  | true =>
    rw [htext] at hu
    rw [if_pos rfl]
    cases hk : f.chain.first with
    | id i =>
      rw [hk] at hu
      exact (riskOfId_of_isUnknown i.isBlank_of_mem hu).symm
    | exception i u v x =>
      have : ' ' ∈ (Atom.exception i u v x).text := by simp [Atom.text, withWord]
      rw [hk, isUnknown_of_space this] at hu
      cases hu
  | false =>
    rw [not_saysProprietary_bare h, ← Joint.word_or, ← Joint.word_and, hno, hno, htext]
    exact riskOfId_baseId _

/-! ### Without OR -/

theorem rest_eq_nil {f : Framed} (hor : f.Lacks .or) (hand : f.Lacks .and) : f.chain.rest = [] := by
  rw [List.eq_nil_iff_forall_not_mem]
  intro x hx
  cases hj : x.1.joint with
  | or => exact hor x hx hj
  | and => exact hand x hx hj

/-- The pieces between the ANDs of a chain without OR are its atoms. -/
theorem map_risk_splitOn_and (f : Framed) : f.Lacks .or → saysProprietary f.text = false →
    (splitOn andWord f.text).map risk = f.chain.atoms.map Atom.risk := by
  induction f using cut_induction .and with
  | whole f hand =>
    intro hor h
    have hrest := rest_eq_nil hor hand
    rw [← Joint.word_and, splitOn_whole hand, List.map_singleton, risk_single hrest h, Chain.atoms, hrest]
    rfl
  | cut g g' hand ih =>
    intro hor h
    obtain ⟨hg, -, hg'⟩ := lacks_join.mp hor
    obtain ⟨hs, hs'⟩ := not_saysProprietary_join h
    have hrest := rest_eq_nil hg hand
    have hatoms : (g.join .and g').chain.atoms = g.chain.first :: g'.chain.atoms := by
      simp [Chain.atoms, join, hrest]
    have ih := ih hg' hs'
    rw [← Joint.word_and] at ih ⊢
    rw [splitOn_join hand, List.map_cons, ih, risk_single hrest hs, hatoms, List.map_cons]

theorem alternativesFrom_of_and (r : Risk) {rest : List (Link × Atom)} (h : ∀ x ∈ rest, x.1.joint ≠ .or) :
    alternativesFrom r rest = [mostRestrictive (r :: rest.map fun x => x.2.risk)] := by
  induction rest generalizing r with
  | nil => rfl
  | cons x rest ih =>
    obtain ⟨l, k⟩ := x
    have hl : l.joint = .and := by
      cases hj : l.joint with
      | or => exact absurd hj (h (l, k) List.mem_cons_self)
      | and => rfl
    rw [alternativesFrom, hl, ih k.risk fun x hx => h x (List.mem_cons_of_mem _ hx), List.map_cons,
      mostRestrictive_cons r (by simp)]
    rfl

/-- A chain without OR has one alternative, its most restrictive atom. -/
theorem alternatives_of_lacks {f : Framed} (hor : f.Lacks .or) (h : saysProprietary f.text = false) :
    f.chain.alternatives = [risk f.text] := by
  rw [Chain.alternatives, alternativesFrom_of_and _ hor]
  by_cases hrest : f.chain.rest = []
  · rw [risk_single hrest h, hrest]
    rfl
  · have hand : mentions andWord f.bare.text = true :=
      mentions_of_not_lacks (j := .and) fun hand => hrest (rest_eq_nil hor hand)
    have hno : mentions orWord f.bare.text = false := mentions_of_lacks (f := f.bare) (j := .or) hor
    have hbare := not_saysProprietary_bare h
    rw [risk_eq, strip_text, isUnknown_text (f := f.bare) hrest, hbare, hno, hand, map_risk_splitOn_and f.bare hor hbare]
    simp [Chain.atoms, bare, Function.comp_def]

/-! ### With OR -/

/-- The pieces between the ORs of a chain are its alternatives. -/
theorem map_risk_splitOn (f : Framed) : saysProprietary f.text = false →
    (splitOn orWord f.text).map risk = f.chain.alternatives := by
  induction f using cut_induction .or with
  | whole f hor =>
    intro h
    rw [alternatives_of_lacks hor h, ← Joint.word_or, splitOn_whole hor]
    rfl
  | cut g g' hor ih =>
    intro h
    obtain ⟨hs, hs'⟩ := not_saysProprietary_join h
    have halt : (g.join .or g').chain.alternatives = g.chain.alternatives ++ g'.chain.alternatives :=
      alternativesFrom_or _ _ rfl _ _
    have ih := ih hs'
    rw [← Joint.word_or] at ih ⊢
    rw [splitOn_join hor, List.map_cons, ih, halt, alternatives_of_lacks hor hs]
    rfl

/-- The risk of a chain is its best alternative. -/
theorem risk_text {f : Framed} (h : saysProprietary f.text = false) :
    risk f.text = mostPermissive f.chain.alternatives := by
  by_cases hor : f.Lacks .or
  · rw [alternatives_of_lacks hor h]
    rfl
  · have hrest : f.chain.rest ≠ [] := by
      intro hrest
      exact hor (by simp [Lacks, hrest])
    have hmention : mentions orWord f.bare.text = true := mentions_of_not_lacks (f := f.bare) (j := .or) hor
    have hbare := not_saysProprietary_bare h
    rw [risk_eq, strip_text, isUnknown_text (f := f.bare) hrest, hbare, hmention, map_risk_splitOn f.bare hbare]
    rfl

end Framed

end Attribution.Expression
