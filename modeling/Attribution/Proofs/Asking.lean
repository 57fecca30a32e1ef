/-
  Attribution.Proofs.Asking — how options can be asked for.

  (1) What options ask for are wishes: a value for a slot, or a flag. A wish can be said in
  one word or two (`Wish.Says`), and a command line asks for options if it says each of their
  wishes at most once, in any order, and leaves none out that does not go without saying
  (`Asks`).

  (2) A reading has been told wishes if they are what it holds (`Reading.Told`). Judging a
  value that is new tells it one more (`Told.give`), and so do the words of a wish
  (`Reads.wish`), whatever is still pending.

  (3) So all words together tell the reading the options (`parse_asked`).
-/
import Attribution.Proofs.Muting

namespace Attribution

open Attribution.Path (ofString)

namespace CommandLine

/-! ## (1) Wishes -/

def formatName : Format → Bytes
  | .terminal => ofString "terminal"
  | .json => ofString "json"

inductive Wish where
  | value (s : Slot) (v : Bytes)
  | flag (f : Flag)
  deriving DecidableEq

def valueOf (o : Options) : Slot → Option Bytes
  | .path => some o.path
  | .config => o.config
  | .license => o.license
  | .cacheRoot => o.cacheRoot
  | .output => o.output
  | .report => some (formatName o.report)

def raises (o : Options) : Flag → Bool
  | .strict => o.strict
  | .verbose => o.verbose
  | .quiet => o.quiet

def Slot.fullName? : Slot → Option Bytes
  | .path => none
  | .config => some (ofString "--config")
  | .license => some (ofString "--license")
  | .cacheRoot => some (ofString "--cache-root")
  | .output => some (ofString "--output")
  | .report => some (ofString "--report")

def Slot.letter? : Slot → Option Bytes
  | .output => some (ofString "-o")
  | _ => none

def Flag.words : Flag → List Bytes
  | .strict => [ofString "--strict"]
  | .verbose => [ofString "--verbose", ofString "-v"]
  | .quiet => [ofString "--quiet", ofString "-q"]

namespace Wish

def Holds (o : Options) : Wish → Prop
  | value s v => valueOf o s = some v
  | flag f => raises o f = true

/-- The words that say a wish: an option with its value in the next word or attached, the project
    alone, or a flag. -/
inductive Says : Wish → List Bytes → Prop
  | apart {s : Slot} {w : Bytes} (v : Bytes) : s.fullName? = some w ∨ s.letter? = some w → Says (value s v) [w, v]
  | attached {s : Slot} {w : Bytes} (v : Bytes) : s.fullName? = some w → Says (value s v) [w ++ equals :: v]
  | project (v : Bytes) : Says (value .path v) [v]
  | flag {f : Flag} {w : Bytes} : w ∈ f.words → Says (flag f) [w]

end Wish

/-- A command line asks for options: it says wishes of theirs, each at most once and in any
    order, and all but those that hold when nothing is said. -/
def Asks (o : Options) (args : List Bytes) : Prop :=
  ∃ said groups, said.Nodup ∧ (∀ x ∈ said, x.Holds o) ∧ (∀ x : Wish, x.Holds o → x.Holds .default ∨ x ∈ said) ∧
    List.Forall₂ Wish.Says said groups ∧ args = groups.flatten

/-- A value that no option can be mistaken for. -/
def IsPlain (v : Bytes) : Prop := v ≠ [] ∧ v.head? ≠ some dash

instance : DecidablePred IsPlain := fun v => inferInstanceAs (Decidable (v ≠ [] ∧ v.head? ≠ some dash))

def pathsOf (o : Options) : List Path := o.path :: [o.config, o.license, o.cacheRoot, o.output].filterMap id

/-! ### Words -/

theorem word_of_isPlain {v : Bytes} (h : IsPlain v) : word v = .plain v := by
  obtain ⟨hne, hhead⟩ := h
  match v with
  | [] => exact absurd rfl hne
  | [a] => rfl
  | [a, b] =>
    have ha : a ≠ dash := fun e => hhead (congrArg some e)
    simp [word, ha]
  | a :: b :: c :: v =>
    have ha : a ≠ dash := fun e => hhead (congrArg some e)
    simp [word, ha]

theorem word_fullName {s : Slot} {w : Bytes} (h : s.fullName? = some w) :
    ∃ name, word w = .long name none ∧ longNames.lookup name = some (.takes s) ∧
      ∀ v, word (w ++ equals :: v) = .long name (some v) := by
  cases s <;> cases h <;> exact ⟨_, rfl, rfl, fun _ => rfl⟩

theorem isPlain_formatName (f : Format) : IsPlain (formatName f) := by
  cases f <;> exact ⟨by decide, by decide⟩

theorem format?_formatName (f : Format) : Reading.format? (formatName f) = some f := by
  cases f <;> decide

theorem isPlain_of_valueOf {o : Options} (h : ∀ p ∈ pathsOf o, IsPlain p) {s : Slot} {v : Bytes}
    (hv : valueOf o s = some v) : IsPlain v := by
  cases s with
  | path =>
    cases hv
    exact h _ List.mem_cons_self
  | report =>
    cases hv
    exact isPlain_formatName _
  | _ => exact h v (List.mem_cons_of_mem _ (List.mem_filterMap.mpr ⟨some v, by simp [← hv, valueOf], rfl⟩))

namespace Reading

/-! ## (2) What a reading has been told -/

def valueOf (r : Reading) : Slot → Option Bytes
  | .path => r.path
  | .config => r.config
  | .license => r.license
  | .cacheRoot => r.cacheRoot
  | .output => r.output
  | .report => r.report.map formatName

def raised (r : Reading) : Flag → Bool
  | .strict => r.strict
  | .verbose => r.verbose
  | .quiet => r.quiet

structure Told (done : List Wish) (r : Reading) : Prop where
  pending : r.pending = none
  onlyPlain : r.onlyPlain = false
  value : ∀ s v, r.valueOf s = some v ↔ .value s v ∈ done
  flag : ∀ f, r.raised f = true ↔ .flag f ∈ done

/-- A reading will have been told these wishes when it has judged what is pending. -/
def Reads (done : List Wish) (r : Reading) : Prop := ∃ r', r.settle = .ok r' ∧ Told done r'

variable {done : List Wish} {r r' : Reading} {s : Slot} {v : Bytes}

theorem told_start : Told [] start where
  pending := rfl
  onlyPlain := rfl
  value s v := by cases s <;> simp [start, valueOf]
  flag f := by cases f <;> simp [start, raised]

theorem Told.settle (h : Told done r) : r.settle = .ok r := by
  unfold Reading.settle
  rw [h.pending]

theorem Told.reads (h : Told done r) : Reads done r := ⟨r, h.settle, h⟩

theorem Reads.onlyPlain (h : Reads done r) : r.onlyPlain = false := by
  obtain ⟨r', hsettle, htold⟩ := h
  rw [← (settle_eq_ok hsettle).2.1, htold.onlyPlain]

theorem isSet_eq (r : Reading) (s : Slot) : r.isSet s = (r.valueOf s).isSome := by
  cases s <;> simp [isSet, valueOf]

/-- Putting a value in a slot changes no other. -/
theorem exists_put (r : Reading) (hreport : s = .report → ∃ f, v = formatName f) :
    ∃ r', r.put v s = .ok r' ∧ (∀ k, r'.valueOf k = if k = s then some v else r.valueOf k) ∧
      (∀ f, r'.raised f = r.raised f) ∧ r'.pending = r.pending ∧ r'.onlyPlain = r.onlyPlain := by
  cases s with
  | report =>
    obtain ⟨f, rfl⟩ := hreport rfl
    refine ⟨{ r with report := some f }, by simp only [put, format?_formatName], fun k => ?_, fun f => ?_, rfl, rfl⟩
    · cases k <;> rfl
    · cases f <;> rfl
  | _ =>
    refine ⟨_, rfl, fun k => ?_, fun f => ?_, rfl, rfl⟩
    · cases k <;> rfl
    · cases f <;> rfl

/-- Judging a value for a slot that has none. -/
theorem Told.give (h : Told done r) (hnew : ∀ w, .value s w ∉ done) (hne : v ≠ [])
    (hreport : s = .report → ∃ f, v = formatName f) : ∃ r', r.give s v = .ok r' ∧ Told (.value s v :: done) r' := by
  obtain ⟨r', hput, hvalue, hflag, hpending, hplain⟩ := r.exists_put hreport
  have hnone : r.valueOf s = none := Option.eq_none_iff_forall_ne_some.mpr fun w hw => hnew w ((h.value s w).mp hw)
  refine ⟨r', ?_, hpending.trans h.pending, hplain.trans h.onlyPlain, fun k w => ?_, fun f => ?_⟩
  · rw [Reading.give, isSet_eq, hnone]
    simpa [hne] using hput
  · rw [hvalue, List.mem_cons]
    by_cases hk : k = s
    · subst hk
      simp [hnew, eq_comm]
    · simp [hk, h.value]
  · rw [hflag, h.flag]
    simp

/-- A flag that is not raised can be. -/
theorem Told.raise {f : Flag} (h : Told done r) (hnew : .flag f ∉ done) :
    ∃ r', r.raise f = .ok r' ∧ Told (.flag f :: done) r' := by
  have hlow : r.raised f = false := Bool.eq_false_iff.mpr fun e => hnew ((h.flag f).mp e)
  have hothers : ∀ (r' : Reading), (∀ k, r'.valueOf k = r.valueOf k) → r'.pending = r.pending →
      r'.onlyPlain = r.onlyPlain → (∀ k, r'.raised k = (decide (k = f) || r.raised k)) → Told (.flag f :: done) r' :=
    fun r' hvalue hpending hplain hflag => ⟨hpending.trans h.pending, hplain.trans h.onlyPlain,
      fun s v => by simp [hvalue, h.value], fun k => by simp [hflag, h.flag]⟩
  cases f with
  | strict =>
    refine ⟨{ r with strict := true }, if_neg (Bool.eq_false_iff.mp hlow), hothers _ (fun k => ?_) rfl rfl fun k => ?_⟩
    all_goals cases k <;> rfl
  | verbose =>
    refine ⟨{ r with verbose := true }, if_neg (Bool.eq_false_iff.mp hlow), hothers _ (fun k => ?_) rfl rfl fun k => ?_⟩
    all_goals cases k <;> rfl
  | quiet =>
    refine ⟨{ r with quiet := true }, if_neg (Bool.eq_false_iff.mp hlow), hothers _ (fun k => ?_) rfl rfl fun k => ?_⟩
    all_goals cases k <;> rfl

/-- A value that is pending will have been told. -/
theorem Told.reads_pending (h : Told done r) (hnew : ∀ w, .value s w ∉ done) (hne : v ≠ [])
    (hreport : s = .report → ∃ f, v = formatName f) :
    Reads (.value s v :: done) { r with pending := some (s, some v) } := by
  have hr : ({ r with pending := none } : Reading) = r := by
    rw [← h.pending]
  obtain ⟨r', hgive, htold⟩ := h.give hnew hne hreport
  refine ⟨r', ?_, htold⟩
  show Reading.give { r with pending := none } s v = .ok r'
  rw [hr, hgive]

/-! ### One wish -/

theorem step_named {w : Bytes} (hw : s.fullName? = some w ∨ s.letter? = some w) (hopen : r.onlyPlain = false) :
    r.step w = r.switch (.takes s) := by
  obtain hw | hw := hw
  · obtain ⟨name, hword, hname, -⟩ := word_fullName hw
    simp only [step, hopen, hword, long, hname, Bool.false_eq_true, if_false]
  · cases s with
    | output =>
      cases hw
      simp only [step, hopen, Bool.false_eq_true, if_false]
      rfl
    | _ => cases hw

theorem step_flag {f : Flag} {w : Bytes} (hw : w ∈ f.words) (hopen : r.onlyPlain = false) :
    r.step w = r.switch (.flag f) := by
  have hletter : ∀ x : Except Stop Reading, (x >>= fun r => cluster 0 [] r) = x := fun x => by cases x <;> rfl
  simp only [step, hopen, Bool.false_eq_true, if_false]
  cases f with
  | strict =>
    obtain rfl : w = ofString "--strict" := by simpa [Flag.words] using hw
    rfl
  | verbose =>
    obtain rfl | rfl : w = ofString "--verbose" ∨ w = ofString "-v" := by simpa [Flag.words] using hw
    · rfl
    · exact hletter _
  | quiet =>
    obtain rfl | rfl : w = ofString "--quiet" ∨ w = ofString "-q" := by simpa [Flag.words] using hw
    · rfl
    · exact hletter _

def Fits (done : List Wish) : Wish → Prop
  | .value s v => (∀ w, .value s w ∉ done) ∧ IsPlain v ∧ (s = .report → ∃ f, v = formatName f)
  | .flag f => .flag f ∉ done

theorem Reads.apart {w : Bytes} (h : Reads done r) (hfits : Fits done (.value s v))
    (hw : s.fullName? = some w ∨ s.letter? = some w) :
    ∃ r', Reads (.value s v :: done) r' ∧ ∀ rest, steps (w :: v :: rest) r = steps rest r' := by
  have hopen := h.onlyPlain
  obtain ⟨r₁, hsettle, htold⟩ := h
  obtain ⟨hnew, hplain, hreport⟩ := hfits
  refine ⟨_, htold.reads_pending hnew hplain.1 hreport, fun rest => ?_⟩
  have hname : r.step w = .ok { r₁ with pending := some (s, none) } := by
    rw [step_named hw hopen, switch, hsettle]
    rfl
  have hvalue : step { r₁ with pending := some (s, none) } v = .ok { r₁ with pending := some (s, some v) } := by
    simp only [step, htold.onlyPlain, word_of_isPlain hplain, Bool.false_eq_true, if_false]
  rw [steps, hname]
  show (step _ v >>= steps rest) = _
  rw [hvalue]
  rfl

theorem Reads.attached {w : Bytes} (h : Reads done r) (hfits : Fits done (.value s v)) (hw : s.fullName? = some w) :
    ∃ r', Reads (.value s v :: done) r' ∧ r.step (w ++ equals :: v) = .ok r' := by
  have hopen := h.onlyPlain
  obtain ⟨r₁, hsettle, htold⟩ := h
  obtain ⟨hnew, hplain, hreport⟩ := hfits
  obtain ⟨r', hgive, htold'⟩ := htold.give hnew hplain.1 hreport
  obtain ⟨name, -, hname, hword⟩ := word_fullName hw
  refine ⟨r', htold'.reads, ?_⟩
  simp only [step, hopen, hword, long, hname, hsettle, Bool.false_eq_true, if_false]
  exact hgive

theorem Reads.project (h : Reads done r) (hfits : Fits done (.value .path v)) :
    ∃ r', Reads (.value .path v :: done) r' ∧ r.step v = .ok r' := by
  have hopen := h.onlyPlain
  obtain ⟨r₁, hsettle, htold⟩ := h
  obtain ⟨hnew, hplain, hreport⟩ := hfits
  refine ⟨_, htold.reads_pending hnew hplain.1 hreport, ?_⟩
  have hpath : r.hasPath = false := by
    have hnone : r₁.path = none := Option.eq_none_iff_forall_ne_some.mpr fun w hw => hnew w ((htold.value _ w).mp hw)
    rw [← (settle_eq_ok hsettle).2.2, hasPath, hnone, htold.pending]
    rfl
  -- What is pending can be judged, so it is no option that waits for this word.
  have hplace : r.step v = r.place v := by
    simp only [step, hopen, word_of_isPlain hplain, Bool.false_eq_true, if_false]
    split
    · next hwaits =>
      rw [settle, hwaits] at hsettle
      cases hsettle
    · rfl
  rw [hplace, place, hpath, hsettle]
  rfl

theorem Reads.flag {f : Flag} {w : Bytes} (h : Reads done r) (hnew : .flag f ∉ done) (hw : w ∈ f.words) :
    ∃ r', Reads (.flag f :: done) r' ∧ r.step w = .ok r' := by
  have hopen := h.onlyPlain
  obtain ⟨r₁, hsettle, htold⟩ := h
  obtain ⟨r', hraise, htold'⟩ := htold.raise hnew
  refine ⟨r', htold'.reads, ?_⟩
  rw [step_flag hw hopen, switch, hsettle]
  exact hraise

/-- The words of a wish tell the reading that wish and no other. -/
theorem Reads.wish (h : Reads done r) {x : Wish} {ws : List Bytes} (hfits : Fits done x) (hsaid : x.Says ws) :
    ∃ r', Reads (x :: done) r' ∧ ∀ rest, steps (ws ++ rest) r = steps rest r' := by
  have hone : ∀ {w : Bytes}, (∃ r', Reads (x :: done) r' ∧ r.step w = .ok r') →
      ∃ r', Reads (x :: done) r' ∧ ∀ rest, steps ([w] ++ rest) r = steps rest r' := by
    rintro w ⟨r', h', hstep⟩
    refine ⟨r', h', fun rest => ?_⟩
    rw [List.singleton_append, steps, hstep]
    rfl
  cases hsaid with
  | apart v hw => exact h.apart hfits hw
  | attached v hw => exact hone (h.attached hfits hw)
  | project v => exact hone (h.project hfits)
  | flag hw => exact hone (h.flag hfits hw)

/-! ### All wishes -/

theorem fits_of_holds {o : Options} {x : Wish} (ho : ∀ y ∈ x :: done, y.Holds o) (hnew : x ∉ done)
    (hpaths : ∀ p ∈ pathsOf o, IsPlain p) : Fits done x := by
  have hx : x.Holds o := ho x List.mem_cons_self
  cases x with
  | flag f => exact hnew
  | value s v =>
    refine ⟨fun w hw => ?_, isPlain_of_valueOf hpaths hx, fun hs => ?_⟩
    · have hsame : some w = some v := (ho _ (List.mem_cons_of_mem _ hw)).symm.trans hx
      cases hsame
      exact hnew hw
    · subst hs
      exact ⟨o.report, (Option.some.inj hx).symm⟩

/-- The words of wishes, one after another, tell the reading all of them. -/
theorem Reads.steps {o : Options} {said : List Wish} {groups : List (List Bytes)}
    (hsaid : List.Forall₂ Wish.Says said groups) (h : Reads done r) (hnew : (said.reverse ++ done).Nodup)
    (ho : ∀ x ∈ said.reverse ++ done, x.Holds o) (hpaths : ∀ p ∈ pathsOf o, IsPlain p) :
    ∃ r', steps groups.flatten r = .ok r' ∧ Told (said.reverse ++ done) r' := by
  induction hsaid generalizing done r with
  | nil => exact h
  | @cons x ws said groups hx _ ih =>
    rw [List.reverse_cons, List.append_assoc, List.singleton_append] at hnew ho ⊢
    have hfits : Fits done x := fits_of_holds (fun y hy => ho y (List.mem_append_right _ hy))
      (List.nodup_cons.mp (List.nodup_append.mp hnew).2.1).1 hpaths
    obtain ⟨r', h', hstep⟩ := h.wish hfits hx
    rw [List.flatten_cons, hstep]
    exact ih h' hnew ho

end Reading

/-! ## (3) Options -/

theorem Options.eq_of_valueOf {o o' : Options} (hvalue : ∀ s, valueOf o s = valueOf o' s)
    (hflag : ∀ f, raises o f = raises o' f) : o = o' := by
  have hreport : o.report = o'.report := by
    have hname := congrArg (Option.map Reading.format?) (hvalue .report)
    simpa [valueOf, format?_formatName] using hname
  cases o
  cases o'
  have hpath := Option.some.inj (hvalue .path)
  have hconfig := hvalue .config
  have hlicense := hvalue .license
  have hcache := hvalue .cacheRoot
  have houtput := hvalue .output
  have hstrict := hflag .strict
  have hverbose := hflag .verbose
  have hquiet := hflag .quiet
  simp only [valueOf, raises] at *
  subst_vars
  rfl

/-- What a reading has been told, with the defaults for the rest, is what was asked for. -/
theorem Reading.Told.options_eq {o : Options} {done : List Wish} {r : Reading} (h : Told done r)
    (ho : ∀ x ∈ done, x.Holds o) (hall : ∀ x : Wish, x.Holds o → x.Holds .default ∨ x ∈ done) : r.options = o := by
  refine Options.eq_of_valueOf (fun s => ?_) fun f => ?_
  · have hoptions : CommandLine.valueOf r.options s = (r.valueOf s).or (CommandLine.valueOf .default s) := by
      cases s with
      | path =>
        simp only [options, CommandLine.valueOf, Reading.valueOf]
        cases r.path <;> rfl
      | report =>
        simp only [options, CommandLine.valueOf, Reading.valueOf]
        cases r.report <;> rfl
      | _ => exact (Option.or_none).symm
    rw [hoptions]
    cases hv : r.valueOf s with
    | some v => exact (ho _ ((h.value s v).mp hv)).symm
    | none =>
      cases hs : CommandLine.valueOf o s with
      | none => cases s <;> first | rfl | cases hs
      | some v =>
        obtain hdefault | hmem := hall (.value s v) hs
        · exact hdefault
        · rw [(h.value s v).mpr hmem] at hv
          cases hv
  · have hraised : raises r.options f = r.raised f := by cases f <;> rfl
    rw [hraised, Bool.eq_iff_iff, h.flag]
    refine ⟨ho (.flag f), fun hf => (hall (.flag f) hf).resolve_left fun hdefault => ?_⟩
    cases f <;> cases hdefault

/-- A command line that asks for options is read as these options. -/
theorem parse_asked {o : Options} {args : List Bytes} (hpaths : ∀ p ∈ pathsOf o, IsPlain p) (h : Asks o args) :
    parse args = .ok o := by
  obtain ⟨said, groups, hnew, ho, hall, hsaid, rfl⟩ := h
  have hmem : ∀ x, x ∈ said.reverse ++ [] ↔ x ∈ said := by simp
  obtain ⟨r, hsteps, htold⟩ := Reading.Reads.steps hsaid Reading.told_start.reads (by simpa using hnew)
    (fun x hx => ho x ((hmem x).mp hx)) hpaths
  have hoptions : r.options = o := htold.options_eq (fun x hx => ho x ((hmem x).mp hx))
    fun x hx => (hall x hx).imp_right (hmem x).mpr
  rw [parse, hsteps, ← hoptions]
  rfl

/-- Options whose values have equals signs and option names in them, or are no text. -/
def scattered : Options where
  path := ofString "license"
  config := some (ofString "a=b=c")
  license := some [0xFF]
  cacheRoot := none
  output := some (ofString "output")
  report := .json
  strict := true
  verbose := true
  quiet := false

def scatteredWords : List Bytes :=
  [ofString "-v", ofString "--config=a=b=c", ofString "license", ofString "-o", ofString "output", ofString "--strict",
    ofString "--report", ofString "json", ofString "--license", [0xFF]]

theorem asks_scattered : Asks scattered scatteredWords := by
  refine ⟨[.flag .verbose, .value .config (ofString "a=b=c"), .value .path (ofString "license"),
    .value .output (ofString "output"), .flag .strict, .value .report (ofString "json"), .value .license [0xFF]],
    [[ofString "-v"], [ofString "--config=a=b=c"], [ofString "license"], [ofString "-o", ofString "output"],
      [ofString "--strict"], [ofString "--report", ofString "json"], [ofString "--license", [0xFF]]],
    by decide, ?_, ?_, ?_, rfl⟩
  · simp only [List.forall_mem_cons, List.not_mem_nil, false_imp_iff, implies_true, and_true]
    exact ⟨rfl, rfl, rfl, rfl, rfl, rfl, rfl⟩
  · rintro (⟨s, v⟩ | f) h
    · cases s with
      | cacheRoot => cases h
      | _ =>
        cases h
        exact .inr (by decide)
    · cases f with
      | quiet => cases h
      | _ => exact .inr (by decide)
  · exact .cons (.flag (by decide)) (.cons (.attached (w := ofString "--config") (ofString "a=b=c") rfl)
      (.cons (.project _) (.cons (.apart _ (.inr rfl)) (.cons (.flag (by decide))
        (.cons (.apart _ (.inl rfl)) (.cons (.apart _ (.inl rfl)) .nil))))))

theorem parse_scattered : (∀ p ∈ pathsOf scattered, IsPlain p) ∧ Asks scattered scatteredWords ∧
    parse scatteredWords = .ok scattered := by
  have hpaths : ∀ p ∈ pathsOf scattered, IsPlain p := by decide
  exact ⟨hpaths, asks_scattered, parse_asked hpaths asks_scattered⟩

end CommandLine

end Attribution
