/-
  Attribution.Proofs.Muting — what a command line asks for besides how much is told.

  (1) The flags that say how much is told can be taken out of a command line: as words of
  their own, and as letters in front of a cluster. Behind two dashes nothing is an option
  (`mute`).

  (2) A flag makes the reading judge what is pending before the next word does. So the
  reading without the flags trails behind by what is pending (`Reading.Trails`), until it
  judges the same. A word that is kept does the same in both (`Trails.step`), and so do all
  that follow (`Trails.steps_mute`).

  (3) So without the flags the same is asked for (`parse_mute`).
-/
import Attribution.CommandLine
import Attribution.Proofs.Inventory

namespace Attribution

open Attribution.Path (ofString)

namespace CommandLine

/-! ## (1) Command lines without the flags -/

def tellingNames : List Bytes := [ofString "verbose", ofString "quiet"]

def tellingLetters : Bytes := ofString "vq"

def muteWord (w : Bytes) : Option Bytes :=
  match word w with
  | .long name none => if name ∈ tellingNames then none else some w
  | .cluster letters => match letters.dropWhile tellingLetters.contains with
    | [] => none
    | b :: rest => some (dash :: b :: rest)
  | _ => some w

/-- The words of a command line without the flags that say how much is told. -/
def mute : List Bytes → List Bytes
  | [] => []
  | w :: ws => if word w = .dashes then w :: ws else (muteWord w).toList ++ mute ws

def Switch.tells : Switch → Bool
  | .flag .verbose | .flag .quiet => true
  | _ => false

theorem tells_of_mem {name : Bytes} (h : name ∈ tellingNames) :
    ∃ f : Flag, f ≠ .strict ∧ longNames.lookup name = some (.flag f) := by
  obtain rfl | rfl : name = ofString "verbose" ∨ name = ofString "quiet" := by simpa [tellingNames] using h
  · exact ⟨.verbose, nofun, rfl⟩
  · exact ⟨.quiet, nofun, rfl⟩

theorem mem_of_lookup {α β : Type} [BEq α] [LawfulBEq α] {l : List (α × β)} {a : α} {b : β}
    (h : l.lookup a = some b) : (a, b) ∈ l := by
  obtain ⟨before, after, rfl, -⟩ := List.lookup_eq_some_iff.mp h
  exact List.mem_append_right _ List.mem_cons_self

theorem tells_longNames {name : Bytes} {s : Switch} (h : longNames.lookup name = some s)
    (hn : name ∉ tellingNames) : s.tells = false := by
  have hnames : ∀ p ∈ longNames, p.1 ∉ tellingNames → p.2.tells = false := by decide
  exact hnames _ (mem_of_lookup h) hn

theorem tells_letter {b : UInt8} (h : tellingLetters.contains b = true) (w : Bytes) :
    ∃ (c : Char) (f : Flag), f ≠ .strict ∧ Text.readChar b w = (some c, 0) ∧
      shortNames.lookup c = some (.flag f) := by
  rw [show tellingLetters = [0x76, 0x71] from rfl] at h
  obtain rfl | rfl : b = 0x76 ∨ b = 0x71 := by simpa using h
  · exact ⟨'v', .verbose, nofun, rfl, rfl⟩
  · exact ⟨'q', .quiet, nofun, rfl, rfl⟩

/-- Any other letter takes a value or ends the reading. -/
theorem shortNames_cases {b : UInt8} {w : Bytes} {c : Char} {used : Nat} {s : Switch}
    (hread : Text.readChar b w = (some c, used)) (h : shortNames.lookup c = some s)
    (hb : tellingLetters.contains b = false) : (∃ slot, s = .takes slot) ∨ s = .help ∨ s = .version := by
  have hfirst : (Text.encodeChar c).head? = some b := by rw [Text.encodeChar_of_readChar hread]; rfl
  have hmem := mem_of_lookup h
  simp only [shortNames, List.mem_cons, Prod.mk.injEq, List.not_mem_nil, or_false] at hmem
  obtain ⟨rfl, rfl⟩ | ⟨rfl, rfl⟩ | ⟨rfl, rfl⟩ | ⟨rfl, rfl⟩ | ⟨rfl, rfl⟩ := hmem
  · exact .inl ⟨_, rfl⟩
  · cases hfirst
    cases hb
  · cases hfirst
    cases hb
  · exact .inr (.inl rfl)
  · exact .inr (.inr rfl)

namespace Reading

/-! ## (2) Reading without the flags

### What is judged -/

variable {r r₀ r' : Reading}

/-- A reading with changes in what judging does not ask for. -/
def aside (onlyPlain verbose quiet : Bool → Bool) (r : Reading) : Reading :=
  { r with onlyPlain := onlyPlain r.onlyPlain, verbose := verbose r.verbose, quiet := quiet r.quiet }

def muted (r : Reading) : Reading := r.aside id (fun _ => false) (fun _ => false)

section Aside

variable (o v q : Bool → Bool) (r : Reading)

theorem put_aside (value : Bytes) (s : Slot) : (r.aside o v q).put value s = (r.put value s).map (aside o v q) := by
  cases s with
  | report =>
    simp only [put]
    cases format? value <;> rfl
  | _ => rfl

theorem give_aside (s : Slot) (value : Bytes) : (r.aside o v q).give s value = (r.give s value).map (aside o v q) := by
  have hset : (r.aside o v q).isSet s = r.isSet s := by cases s <;> rfl
  unfold give
  rw [hset, put_aside]
  split
  · rfl
  · split
    · rfl
    · rfl

theorem settle_aside : (r.aside o v q).settle = r.settle.map (aside o v q) := by
  unfold settle
  rw [show (r.aside o v q).pending = r.pending from rfl]
  split
  · rfl
  · rfl
  · exact give_aside o v q { r with pending := none } _ _

end Aside

theorem put_eq_ok {v : Bytes} {s : Slot} (h : r.put v s = .ok r') : r'.pending = r.pending ∧
    r'.onlyPlain = r.onlyPlain ∧ r'.path.isSome = (r.path.isSome || decide (s = .path)) := by
  cases s with
  | report =>
    simp only [put] at h
    cases hf : format? v with
    | none =>
      rw [hf] at h
      cases h
    | some f =>
      rw [hf] at h
      cases h
      exact ⟨rfl, rfl, (Bool.or_false _).symm⟩
  | path =>
    cases h
    exact ⟨rfl, rfl, (Bool.or_true _).symm⟩
  | _ =>
    cases h
    exact ⟨rfl, rfl, (Bool.or_false _).symm⟩

theorem give_eq_ok {v : Bytes} {s : Slot} (h : r.give s v = .ok r') : r.put v s = .ok r' := by
  unfold give at h
  split at h
  · cases h
  · split at h
    · cases h
    · exact h

/-- After judging nothing is pending; whether there is a project stays as it was. -/
theorem settle_eq_ok (h : r.settle = .ok r') :
    r'.pending = none ∧ r'.onlyPlain = r.onlyPlain ∧ r'.hasPath = r.hasPath := by
  unfold settle at h
  split at h
  · next hnone =>
    cases h
    exact ⟨hnone, rfl, rfl⟩
  · cases h
  · next s v hpending =>
    obtain ⟨hp, ho, hpath⟩ := put_eq_ok (give_eq_ok h)
    refine ⟨hp, ho, ?_⟩
    unfold hasPath
    rw [hp, hpending, hpath]
    exact Bool.or_false _

theorem put_eq_error {v : Bytes} {s : Slot} {e : Stop} (h : r.put v s = .error e) : ∃ u, e = .wrong u := by
  cases s with
  | report =>
    simp only [put] at h
    cases hf : format? v with
    | none =>
      rw [hf] at h
      exact ⟨_, (Except.error.inj h).symm⟩
    | some f =>
      rw [hf] at h
      cases h
  | _ => cases h

theorem settle_eq_error {e : Stop} (h : r.settle = .error e) : ∃ u, e = .wrong u := by
  unfold settle give at h
  split at h
  · cases h
  · exact ⟨_, (Except.error.inj h).symm⟩
  · split at h
    · exact ⟨_, (Except.error.inj h).symm⟩
    · split at h
      · exact ⟨_, (Except.error.inj h).symm⟩
      · exact put_eq_error h

/-! ### Trailing behind -/

/-- How a reading without the flags stands to the reading of all words: it has read the
    same, or what is pending in it has been judged in the other. -/
inductive Trails : Reading → Reading → Prop
  | level (r : Reading) : Trails r.muted r
  | behind {r₀ r : Reading} : r₀.settle = .ok r.muted → Trails r₀ r

theorem Trails.settle (h : Trails r₀ r) : r₀.settle = r.settle.map muted := by
  cases h with
  | level => exact settle_aside _ _ _ r
  | behind h =>
    have hr : r.settle = .ok r := by
      unfold Reading.settle
      rw [show r.pending = none from (settle_eq_ok h).1]
    rw [h, hr]
    rfl

theorem Trails.onlyPlain (h : Trails r₀ r) : r₀.onlyPlain = r.onlyPlain := by
  cases h with
  | level => rfl
  | behind h => exact (settle_eq_ok h).2.1.symm

theorem Trails.hasPath (h : Trails r₀ r) : r₀.hasPath = r.hasPath := by
  cases h with
  | level => rfl
  | behind h => exact (settle_eq_ok h).2.2.symm

/-- What comes after judging does the same in both. -/
theorem Trails.bind (h : Trails r₀ r) {f g : Reading → Except Stop Reading}
    (hf : ∀ r, f r.muted = (g r).map muted) : (r₀.settle >>= f) = (r.settle >>= g).map muted := by
  rw [h.settle]
  cases r.settle with
  | error e => rfl
  | ok r => exact hf r

theorem Trails.switch (h : Trails r₀ r) {s : Switch} (hs : s.tells = false) :
    r₀.switch s = (r.switch s).map muted := by
  refine h.bind fun r => ?_
  cases s with
  | flag f =>
    cases f with
    | strict =>
      show (if r.strict then _ else _) = (if r.strict then _ else _ : Except Stop Reading).map muted
      cases r.strict <;> rfl
    | verbose => cases hs
    | quiet => cases hs
  | _ => rfl

theorem Trails.give (h : Trails r₀ r) (s : Slot) (v : Bytes) :
    (r₀.settle >>= fun r => r.give s v) = (r.settle >>= fun r => r.give s v).map muted :=
  h.bind fun r => give_aside _ _ _ r s v

theorem Trails.long (h : Trails r₀ r) {name : Bytes} {value : Option Bytes}
    (hn : value = none → name ∉ tellingNames) : r₀.long name value = (r.long name value).map muted := by
  unfold Reading.long
  split
  · rfl
  · next s hs => exact h.switch (tells_longNames hs (hn rfl))
  · exact h.give _ _
  · rfl

theorem Trails.place (h : Trails r₀ r) (w : Bytes) : r₀.place w = (r.place w).map muted := by
  unfold Reading.place
  rw [h.hasPath]
  split
  · rfl
  · exact h.bind fun r => rfl

/-! ### Reading on -/

/-- How what the words without the flags are read as stands to what all words are read as. A
    wrong command line may be wrong for its flags alone. -/
inductive Follows : Except Stop Reading → Except Stop Reading → Prop
  | ok {r₀ r : Reading} : Trails r₀ r → Follows (.ok r₀) (.ok r)
  | stop (e : Stop) : Follows (.error e) (.error e)
  | wrong (x : Except Stop Reading) (e : UsageError) : Follows x (.error (.wrong e))

theorem Follows.of_eq {x₀ x : Except Stop Reading} (h : x₀ = x.map muted) : Follows x₀ x := by
  subst h
  cases x with
  | error e => exact .stop e
  | ok r => exact .ok (.level r)

/-- A flag that is left out only judges what is pending. -/
theorem Trails.follows_flag (h : Trails r₀ r) {f : Flag} (hf : f ≠ .strict) :
    Follows (.ok r₀) (r.switch (.flag f)) := by
  unfold Reading.switch
  cases hr : r.settle with
  | error e =>
    obtain ⟨u, rfl⟩ := settle_eq_error hr
    exact .wrong _ u
  | ok r₁ =>
    have hbehind : r₀.settle = .ok r₁.muted := by rw [h.settle, hr]; rfl
    cases f with
    | strict => exact absurd rfl hf
    | verbose =>
      show Follows _ (if r₁.verbose then _ else _)
      split
      · exact .wrong _ _
      · exact .ok (.behind hbehind)
    | quiet =>
      show Follows _ (if r₁.quiet then _ else _)
      split
      · exact .wrong _ _
      · exact .ok (.behind hbehind)

/-- A letter that is no such flag ends a cluster, so what follows it counts in both. -/
theorem Trails.cluster_cons (h : Trails r₀ r) {b : UInt8} (w : Bytes) (hb : tellingLetters.contains b = false) :
    cluster 0 (b :: w) r₀ = (cluster 0 (b :: w) r).map muted := by
  simp only [cluster]
  split
  · rfl
  · next c used hread =>
    split
    · rfl
    · next slot hs =>
      split
      · exact h.switch (s := .takes slot) rfl
      · exact h.give _ _
    · next s hslot hs =>
      obtain ⟨slot, rfl⟩ | rfl | rfl := shortNames_cases hread hs hb
      · exact absurd rfl (hslot slot)
      all_goals
        rw [h.switch rfl]
        unfold Reading.switch
        cases r.settle <;> rfl

theorem Trails.cluster {letters : Bytes} (h : Trails r₀ r) :
    Follows (cluster 0 (letters.dropWhile tellingLetters.contains) r₀) (cluster 0 letters r) := by
  induction letters generalizing r with
  | nil => exact .ok h
  | cons b w ih =>
    by_cases hb : tellingLetters.contains b = true
    · obtain ⟨c, f, hf, hread, hlookup⟩ := tells_letter hb w
      rw [List.dropWhile_cons_of_pos hb]
      simp only [Reading.cluster, hread, hlookup]
      have hflag := h.follows_flag hf
      generalize r.switch (.flag f) = x at hflag ⊢
      cases hflag with
      | ok h => exact ih h
      | wrong _ e => exact .wrong _ e
    · rw [List.dropWhile_cons_of_neg hb]
      exact .of_eq (h.cluster_cons w (Bool.eq_false_iff.mpr hb))

theorem Trails.pending (h : Trails r₀ r) :
    r₀ = r.muted ∨ r.pending = none ∧ ∀ s, r₀.pending ≠ some (s, none) := by
  cases h with
  | level => exact .inl rfl
  | behind h =>
    refine .inr ⟨(settle_eq_ok h).1, fun s hs => ?_⟩
    unfold Reading.settle at h
    rw [hs] at h
    cases h

/-- A word that is no option is a value in both, or the project in both. -/
theorem Trails.step_plain (h : Trails r₀ r) (hopen : r.onlyPlain = false) {w p : Bytes} (hw : word w = .plain p) :
    r₀.step w = (r.step w).map muted := by
  unfold Reading.step
  rw [h.onlyPlain, hopen, hw]
  simp only [Bool.false_eq_true, if_false]
  obtain rfl | ⟨hnone, hvalue⟩ := h.pending
  · rw [show r.muted.pending = r.pending from rfl]
    split
    · rfl
    · exact h.place p
  · rw [hnone]
    split
    · next s hs => exact absurd hs (hvalue s)
    · exact h.place p

theorem word_cluster {b : UInt8} (hb : b ≠ dash) (w : Bytes) : word (dash :: b :: w) = .cluster (b :: w) := by
  cases w <;> simp [word, hb]

def stepMuted (r : Reading) (w : Bytes) : Except Stop Reading :=
  match muteWord w with
  | none => .ok r
  | some w => r.step w

theorem Trails.step_long (h : Trails r₀ r) (hopen : r.onlyPlain = false) {w name : Bytes} {value : Option Bytes}
    (hw : word w = .long name value) : Follows (r₀.stepMuted w) (r.step w) := by
  have hstep : r.step w = r.long name value := by simp [Reading.step, hopen, hw]
  have hstep₀ : r₀.step w = r₀.long name value := by simp [Reading.step, h.onlyPlain, hopen, hw]
  by_cases hn : value = none ∧ name ∈ tellingNames
  · obtain ⟨rfl, hn⟩ := hn
    obtain ⟨f, hf, hlookup⟩ := tells_of_mem hn
    simp only [stepMuted, muteWord, hw, if_pos hn, hstep, Reading.long, hlookup]
    exact h.follows_flag hf
  · have hkept : muteWord w = some w := by
      simp only [muteWord, hw]
      cases value with
      | none => exact if_neg fun hmem => hn ⟨rfl, hmem⟩
      | some v => rfl
    rw [stepMuted, hkept, hstep]
    exact .of_eq (hstep₀.trans (h.long fun hnone hmem => hn ⟨hnone, hmem⟩))

theorem Trails.step_cluster (h : Trails r₀ r) (hopen : r.onlyPlain = false) {w letters : Bytes}
    (hw : word w = .cluster letters) : Follows (r₀.stepMuted w) (r.step w) := by
  have hstep : r.step w = Reading.cluster 0 letters r := by simp [Reading.step, hopen, hw]
  have hrest : Follows _ (Reading.cluster 0 letters r) := h.cluster
  rw [← hstep] at hrest
  simp only [stepMuted, muteWord, hw]
  cases hletters : letters.dropWhile tellingLetters.contains with
  | nil =>
    rw [hletters] at hrest
    exact hrest
  | cons b rest =>
    rw [hletters] at hrest
    by_cases hb : b = dash
    · -- A dash among the letters is wrong in both.
      subst hb
      generalize r.step w = x at hrest ⊢
      cases hrest with
      | stop e => exact .wrong _ _
      | wrong _ e => exact .wrong _ _
    · have hstep₀ : r₀.step (dash :: b :: rest) = Reading.cluster 0 (b :: rest) r₀ := by
        simp [Reading.step, h.onlyPlain, hopen, word_cluster hb]
      show Follows (r₀.step (dash :: b :: rest)) _
      rw [hstep₀]
      exact hrest

/-- What is left of a word is read in the place of the word. -/
theorem Trails.step (h : Trails r₀ r) (hopen : r.onlyPlain = false) {w : Bytes} (hw : word w ≠ .dashes) :
    Follows (r₀.stepMuted w) (r.step w) := by
  cases hword : word w with
  | dashes => exact absurd hword hw
  | long name value => exact h.step_long hopen hword
  | cluster letters => exact h.step_cluster hopen hword
  | plain p =>
    simp only [stepMuted, muteWord, hword]
    exact .of_eq (h.step_plain hopen hword)

/-! ### Only two dashes end the options -/

theorem switch_onlyPlain {s : Switch} (h : r.switch s = .ok r') : r'.onlyPlain = r.onlyPlain := by
  unfold switch at h
  obtain ⟨r₁, hr, h⟩ := bind_eq_ok h
  rw [← (settle_eq_ok hr).2.1]
  cases s with
  | takes slot =>
    cases h
    rfl
  | flag f =>
    cases f with
    | strict | verbose | quiet =>
      simp only [raise] at h
      split at h
      · cases h
      · cases h
        rfl
  | help => cases h
  | version => cases h

theorem give_onlyPlain {s : Slot} {v : Bytes} (h : (r.settle >>= fun r => r.give s v) = .ok r') :
    r'.onlyPlain = r.onlyPlain := by
  obtain ⟨r₁, hr, h⟩ := bind_eq_ok h
  rw [(put_eq_ok (give_eq_ok h)).2.1, (settle_eq_ok hr).2.1]

theorem long_onlyPlain {name : Bytes} {value : Option Bytes} (h : r.long name value = .ok r') :
    r'.onlyPlain = r.onlyPlain := by
  unfold long at h
  split at h
  · cases h
  · exact switch_onlyPlain h
  · exact give_onlyPlain h
  · cases h

theorem cluster_onlyPlain {skip : Nat} {letters : Bytes} (h : cluster skip letters r = .ok r') :
    r'.onlyPlain = r.onlyPlain := by
  induction letters generalizing skip r with
  | nil =>
    cases skip <;> cases h <;> rfl
  | cons b w ih =>
    cases skip with
    | succ skip => exact ih h
    | zero =>
      simp only [cluster] at h
      split at h
      · cases h
      · split at h
        · cases h
        · split at h
          · exact switch_onlyPlain h
          · exact give_onlyPlain h
        · obtain ⟨r₁, hr, h⟩ := bind_eq_ok h
          rw [ih h, switch_onlyPlain hr]

theorem place_onlyPlain {w : Bytes} (h : r.place w = .ok r') : r'.onlyPlain = r.onlyPlain := by
  unfold place at h
  split at h
  · cases h
  · obtain ⟨r₁, hr, h⟩ := bind_eq_ok h
    cases h
    exact (settle_eq_ok hr).2.1

theorem step_onlyPlain {w : Bytes} (hw : r.onlyPlain = true ∨ word w ≠ .dashes) (h : r.step w = .ok r') :
    r'.onlyPlain = r.onlyPlain := by
  unfold step at h
  split at h
  · exact place_onlyPlain h
  · next hopen =>
    split at h
    · next hd => exact absurd hd (hw.resolve_left hopen)
    · exact long_onlyPlain h
    · exact cluster_onlyPlain h
    · split at h
      · cases h
        rfl
      · exact place_onlyPlain h

/-! ### All words -/

/-- Behind two dashes there are no flags. -/
theorem Trails.steps_plain (h : Trails r₀ r) (hplain : r.onlyPlain = true) (ws : List Bytes) :
    steps ws r₀ = (steps ws r).map muted := by
  induction ws generalizing r₀ r with
  | nil => exact h.settle
  | cons w ws ih =>
    have hplace : r₀.step w = (r.step w).map muted := by
      unfold Reading.step
      rw [h.onlyPlain, hplain]
      exact h.place w
    simp only [steps, hplace]
    cases hr : r.step w with
    | error e => rfl
    | ok r' => exact ih (.level r') ((step_onlyPlain (.inl hplain) hr).trans hplain)

theorem Trails.dashes (h : Trails r₀ r) : Trails { r₀ with onlyPlain := true } { r with onlyPlain := true } := by
  cases h with
  | level => exact .level { r with onlyPlain := true }
  | behind h =>
    apply Trails.behind
    refine (settle_aside (fun _ => true) id id r₀).trans ?_
    rw [h]
    rfl

theorem steps_muteWord (w : Bytes) (ws : List Bytes) (r : Reading) :
    steps ((muteWord w).toList ++ ws) r = r.stepMuted w >>= steps ws := by
  unfold stepMuted
  cases muteWord w <;> rfl

theorem Trails.steps_mute (h : Trails r₀ r) (hopen : r.onlyPlain = false) (ws : List Bytes) :
    steps (mute ws) r₀ = (steps ws r).map muted ∨ ∃ e, steps ws r = .error (.wrong e) := by
  induction ws generalizing r₀ r with
  | nil => exact .inl h.settle
  | cons w ws ih =>
    by_cases hw : word w = .dashes
    · have hstep : r.step w = .ok { r with onlyPlain := true } := by simp [Reading.step, hopen, hw]
      have hstep₀ : r₀.step w = .ok { r₀ with onlyPlain := true } := by simp [Reading.step, h.onlyPlain, hopen, hw]
      rw [mute, if_pos hw]
      simp only [steps, hstep, hstep₀]
      exact .inl (h.dashes.steps_plain rfl ws)
    · have hword := h.step hopen hw
      rw [mute, if_neg hw, steps_muteWord]
      generalize r₀.stepMuted w = x₀ at hword ⊢
      simp only [steps]
      cases hr : r.step w with
      | error e =>
        rw [hr] at hword
        cases hword with
        | stop => exact .inl rfl
        | wrong _ e => exact .inr ⟨e, rfl⟩
      | ok r' =>
        rw [hr] at hword
        cases hword with
        | ok h' => exact ih h' ((step_onlyPlain (.inr hw) hr).trans hopen)

end Reading

/-! ## (3) Options -/

/-- A command line that is not wrong asks for the same without the flags, but for how much is
    told. -/
theorem parse_mute {args : List Bytes} (h : ∀ e, parse args ≠ .error (.wrong e)) :
    parse (mute args) = (parse args).map fun o => { o with verbose := false, quiet := false } := by
  unfold parse at h ⊢
  obtain hsteps | ⟨e, he⟩ := (Reading.Trails.level .start).steps_mute rfl args
  · rw [show Reading.start.muted = .start from rfl] at hsteps
    rw [hsteps]
    cases Reading.steps args .start <;> rfl
  · rw [he] at h
    exact absurd rfl (h e)

theorem parse_mute_eq_ok {args : List Bytes} {o : Options} (h : parse args = .ok o) :
    parse (mute args) = .ok { o with verbose := false, quiet := false } := by
  have hright : ∀ e, parse args ≠ .error (.wrong e) := by
    rw [h]
    exact nofun
  rw [parse_mute hright, h]
  rfl

/-- Command lines that are the same without the flags ask for the same, but for how much is
    told. -/
theorem options_eq {args args' : List Bytes} {o o' : Options} (h : parse args = .ok o) (h' : parse args' = .ok o')
    (hsame : mute args = mute args') : o' = { o with verbose := o'.verbose, quiet := o'.quiet } := by
  have hmuted : parse (mute args) = _ := parse_mute_eq_ok h
  rw [hsame, parse_mute_eq_ok h'] at hmuted
  cases o
  cases o'
  cases hmuted
  rfl

end CommandLine

end Attribution
