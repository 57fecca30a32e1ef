/-
  Attribution.Proofs.Aligning — the widths of the lines of the box.

  (1) A text without its colour codes is what is seen of it (`Style.plain`). What is painted
  is seen as it was, unless it has an escape in it (`Style.plain_paint_append`).

  (2) A text without control characters stays on its line and has no codes of its own
  (`Legible`).

  (3) If the label of the project is such a text, the box is seen as its contents in rows
  between two borders, with colours or without (`map_plain_box`), and its lines are lines of
  what is printed (`box_infix_lines`).

  (4) A border takes 55 characters. A row takes 54, and as many more as its text has beyond 48
  (`map_width_box`). So the borders stick out of every box (`not_aligned_box`), and the rows
  are in line with one another iff no text has more than 48 characters (`aligned_rows_iff`).
  With bundled packages of two risk classes one always has (`exists_long_of_two_risks`).
-/
import Attribution.Proofs.Ranking
import Attribution.Proofs.Splitting

namespace Attribution

open Text

/-! ## (1) Without colours -/

namespace Style

def isParameter (c : Char) : Bool := c.isDigit || c == ';'

/-- How many characters the colour code at the start of a text takes; 0 if there is none. -/
def codeLength : Text → Nat
  | c :: d :: s =>
    if c == escape && d == '[' && (s.dropWhile isParameter).head? == some 'm' then
      (s.takeWhile isParameter).length + 3
    else 0
  | _ => 0

/-- The text without colour codes; its first `skip` characters belong to a code that has been
    read already. -/
def plainFrom : Nat → Text → Text
  | _, [] => []
  | skip + 1, _ :: s => plainFrom skip s
  | 0, c :: s =>
    match codeLength (c :: s) with
    | 0 => c :: plainFrom 0 s
    | n + 1 => plainFrom n s

/-- What is seen of a text on a terminal: all but the colour codes. -/
def plain (s : Text) : Text := plainFrom 0 s

theorem plainFrom_length_append (x s : Text) : plainFrom x.length (x ++ s) = plain s := by
  induction x with
  | nil => rfl
  | cons c x ih => exact ih

theorem plain_cons {c : Char} (hc : c ≠ escape) (s : Text) : plain (c :: s) = c :: plain s := by
  have hnone : codeLength (c :: s) = 0 := by
    cases s with
    | nil => rfl
    | cons d s => simp [codeLength, hc]
  rw [plain, plainFrom, hnone]
  rfl

theorem plain_append {a : Text} (ha : escape ∉ a) (s : Text) : plain (a ++ s) = a ++ plain s := by
  induction a with
  | nil => rfl
  | cons c a ih =>
    rw [List.mem_cons, not_or] at ha
    rw [List.cons_append, plain_cons (Ne.symm ha.1), ih ha.2]
    rfl

theorem plain_eq_self {s : Text} (h : escape ∉ s) : plain s = s := by
  have := plain_append h []
  rwa [List.append_nil, show plain [] = [] from rfl, List.append_nil] at this

/-- A colour code is not seen. -/
theorem plain_code_append {p : Text} (hp : ∀ c ∈ p, isParameter c = true) (s : Text) :
    plain (escape :: '[' :: (p ++ 'm' :: s)) = plain s := by
  have hm : isParameter 'm' = false := by decide
  have htake : (p ++ 'm' :: s).takeWhile isParameter = p := by
    rw [List.takeWhile_append_of_pos hp, List.takeWhile_cons_of_neg (by simp [hm]), List.append_nil]
  have hdrop : (p ++ 'm' :: s).dropWhile isParameter = 'm' :: s := by
    rw [List.dropWhile_append_of_pos hp, List.dropWhile_cons_of_neg (by simp [hm])]
  have hlength : codeLength (escape :: '[' :: (p ++ 'm' :: s)) = p.length + 3 := by
    simp [codeLength, htake, hdrop]
  have hskip := plainFrom_length_append ('[' :: (p ++ ['m'])) s
  rw [plain, plainFrom, hlength]
  simpa using hskip

theorem plain_opening_append (st : Style) (s : Text) : plain (st.opening ++ s) = plain s := by
  have hcode : st.code.all isParameter = true := by cases st <;> decide
  have := plain_code_append (List.all_eq_true.mp hcode) s
  simpa [opening] using this

theorem plain_reset_append (s : Text) : plain (reset ++ s) = plain s :=
  plain_code_append (p := ['0']) (List.all_eq_true.mp (by decide)) s

theorem paint_eq {t : Text} (ht : escape ∉ t) (color : Bool) (st : Style) :
    st.paint color t = if color then st.opening ++ t ++ reset else t := by
  have hno : ¬ reset <:+: t := fun hin => ht (hin.subset List.mem_cons_self)
  rw [paint, splitOn_eq_self hno, List.intercalate_singleton]

/-- What is painted is seen as it was. -/
theorem plain_paint_append {t : Text} (ht : escape ∉ t) (color : Bool) (st : Style) (s : Text) :
    plain (st.paint color t ++ s) = t ++ plain s := by
  rw [paint_eq ht]
  cases color with
  | false => exact plain_append ht s
  | true =>
    rw [if_pos rfl, List.append_assoc, List.append_assoc, plain_opening_append, plain_append ht,
      plain_reset_append]

end Style

/-! ## (2) Legible texts -/

namespace Text

def isControl (c : Char) : Bool := c.toNat < 0x20 || (0x7F ≤ c.toNat && c.toNat ≤ 0x9F)

def Legible (s : Text) : Prop := ∀ c ∈ s, isControl c = false

instance : DecidablePred Legible := fun s => List.decidableBAll (fun c => isControl c = false) s

variable {s t : Text}

theorem Legible.not_mem {c : Char} (h : Legible s) (hc : isControl c = true) : c ∉ s := by
  intro hmem
  rw [h c hmem] at hc
  cases hc

theorem Legible.append (hs : Legible s) (ht : Legible t) : Legible (s ++ t) :=
  List.forall_mem_append.mpr ⟨hs, ht⟩

theorem legible_replicate {c : Char} (hc : isControl c = false) (n : Nat) : Legible (List.replicate n c) := by
  intro d hd
  rw [(List.mem_replicate.mp hd).2]
  exact hc

theorem legible_ofNat (n : Nat) : Legible (ofNat n) := by
  intro c hc
  have hdigit : c.isDigit = true := Nat.isDigit_of_mem_toDigits (by decide) (by decide) hc
  simp only [Char.isDigit, Bool.and_eq_true, decide_eq_true_eq, ge_iff_le] at hdigit
  have hlow : 48 ≤ c.toNat := UInt32.le_iff_toNat_le.mp hdigit.1
  have hhigh : c.toNat ≤ 57 := UInt32.le_iff_toNat_le.mp hdigit.2
  rw [isControl, Bool.or_eq_false_iff, Bool.and_eq_false_iff]
  simp only [decide_eq_false_iff_not]
  omega

theorem Legible.padRight (h : Legible s) (n : Nat) : Legible (padRight n s) :=
  h.append (legible_replicate (by decide) _)

theorem Legible.padLeft (h : Legible s) (n : Nat) : Legible (padLeft n s) :=
  (legible_replicate (by decide) _).append h

theorem legible_intercalate {sep : Text} (hsep : Legible sep) {ps : List Text} (h : ∀ p ∈ ps, Legible p) :
    Legible (List.intercalate sep ps) := by
  induction ps with
  | nil => exact nofun
  | cons p ps ih =>
    obtain ⟨hp, hps⟩ := List.forall_mem_cons.mp h
    cases ps with
    | nil =>
      rw [List.intercalate_singleton]
      exact hp
    | cons q qs =>
      rw [List.intercalate_cons_cons]
      exact (hp.append hsep).append (ih hps)

end Text

namespace Summary

open Style (plain)

/-! ## (3) The box as it is seen -/

def contents (r : Report) : List Text :=
  ["SUMMARY".toList,
    "Project license    : ".toList ++ r.projectLabel,
    "Sub-licenses       : ".toList ++ ofNat r.sublicenses.length,
    "Packages scanned   : ".toList ++ ofNat r.packages.length,
    "✓".toList ++ "  ".toList ++
      ("Bundled         : ".toList ++ padLeft 4 (ofNat r.bundled.length) ++ "  ".toList ++ topRisks r),
    "⚠".toList ++ "  ".toList ++ ("No license      : ".toList ++ padLeft 4 (ofNat r.missing.length)),
    "Copyright files    : ".toList ++ ofNat r.fileCount]

theorem legible_counted (r : Report) (c : Risk) : Legible (counted r c) := by
  have htitle : Legible c.title := by cases c <;> decide
  exact ((htitle.append (by decide)).append (legible_ofNat _)).append (by decide)

theorem legible_topRisks (r : Report) : Legible (topRisks r) := by
  rw [topRisks_eq]
  cases (ranking r).take 2 with
  | nil => exact List.forall_mem_nil _
  | cons c rest =>
    refine Legible.append (s := ['[']) (by decide) ((legible_intercalate (by decide) ?_).append (by decide))
    exact List.forall_mem_map.mpr fun d _ => legible_counted r d

theorem legible_bundled (r : Report) :
    Legible ("Bundled         : ".toList ++ padLeft 4 (ofNat r.bundled.length) ++ "  ".toList ++ topRisks r) :=
  ((Legible.append (by decide) ((legible_ofNat _).padLeft 4)).append (by decide)).append (legible_topRisks r)

theorem legible_missing (n : Nat) : Legible ("No license      : ".toList ++ padLeft 4 (ofNat n)) :=
  Legible.append (by decide) ((legible_ofNat _).padLeft 4)

theorem legible_row {t : Text} (ht : Legible t) : Legible (row t) :=
  (Legible.append (by decide) (ht.padRight 48)).append (by decide)

theorem plain_row {t : Text} (ht : Legible t) : plain (row t) = row t :=
  Style.plain_eq_self ((legible_row ht).not_mem (by decide))

/-- A row that counts something. -/
theorem plain_row_ofNat {label : Text} (hlabel : Legible label) (n : Nat) :
    plain (row (label ++ ofNat n)) = row (label ++ ofNat n) := plain_row (hlabel.append (legible_ofNat n))

theorem plain_headRow (color : Bool) : plain (headRow color) = row "SUMMARY".toList := by
  rw [headRow, List.append_assoc, Style.plain_append (by decide), Style.plain_paint_append (by decide),
    Style.plain_eq_self (by decide), row, List.append_assoc]

/-- A sign of one character and the blanks behind it take what a row with a sign is padded less. -/
theorem plain_signRow {t : Text} (sign : Text) (hsign : Legible sign) (hone : sign.length = 1) (ht : Legible t)
    (color : Bool) (st : Style) :
    plain (signRow (st.paint color sign) t) = row (sign ++ "  ".toList ++ t) := by
  have hrest : Legible ("  ".toList ++ (padRight 45 t ++ " │".toList)) :=
    Legible.append (by decide) ((ht.padRight 45).append (by decide))
  have hpad : padRight 48 (sign ++ "  ".toList ++ t) = sign ++ "  ".toList ++ padRight 45 t := by
    have hwidth : 48 - (sign ++ "  ".toList ++ t).length = 45 - t.length := by
      simp [hone]
      omega
    rw [padRight, padRight, hwidth, List.append_assoc (sign ++ _)]
  calc plain (signRow (st.paint color sign) t)
      = plain (" │  ".toList ++ (st.paint color sign ++ ("  ".toList ++ (padRight 45 t ++ " │".toList)))) := by
        simp only [signRow, List.append_assoc]
    _ = " │  ".toList ++ (sign ++ ("  ".toList ++ (padRight 45 t ++ " │".toList))) := by
        rw [Style.plain_append (by decide), Style.plain_paint_append (hsign.not_mem (by decide)),
          Style.plain_eq_self (hrest.not_mem (by decide))]
    _ = row (sign ++ "  ".toList ++ t) := by
        rw [row, hpad]
        simp only [List.append_assoc]

theorem map_plain_box {r : Report} (h : Legible r.projectLabel) (color : Bool) :
    (box color r).map plain = border '┌' '┐' :: (contents r).map row ++ [border '└' '┘'] := by
  have htop : plain (border '┌' '┐') = border '┌' '┐' := Style.plain_eq_self (by decide)
  have hbottom : plain (border '└' '┘') = border '└' '┘' := Style.plain_eq_self (by decide)
  have hlabel := plain_row (Legible.append (s := "Project license    : ".toList) (by decide) h)
  have hbundled := plain_signRow "✓".toList (by decide) rfl (legible_bundled r) color .green
  have hmissing := plain_signRow "⚠".toList (by decide) rfl (legible_missing r.missing.length) color .yellow
  simp only [box, (missingCount_eq r).2, List.map_cons, List.map_nil]
  rw [htop, plain_headRow, hlabel, plain_row_ofNat (by decide), plain_row_ofNat (by decide), hbundled, hmissing,
    plain_row_ofNat (by decide), hbottom]
  rfl

theorem newline_not_mem_paint {t : Text} (ht : Legible t) (color : Bool) (st : Style) :
    '\n' ∉ st.paint color t := by
  have hcode : '\n' ∉ st.opening := by cases st <;> decide
  have hreset : '\n' ∉ Style.reset := by decide
  have htext : '\n' ∉ t := ht.not_mem (by decide)
  rw [Style.paint_eq (ht.not_mem (by decide))]
  split
  · simp [hcode, hreset, htext]
  · exact htext

theorem newline_not_mem_box {r : Report} (h : Legible r.projectLabel) (color : Bool) :
    ∀ l ∈ box color r, '\n' ∉ l := by
  have hrow : ∀ {label t : Text}, Legible label → Legible t → '\n' ∉ row (label ++ t) :=
    fun hlabel ht => (legible_row (hlabel.append ht)).not_mem (by decide)
  have hsign : ∀ {sign t : Text} (st : Style), Legible sign → Legible t →
      '\n' ∉ signRow (st.paint color sign) t := by
    intro sign t st hsign ht
    have hpadded := (ht.padRight 45).not_mem (c := '\n') (by decide)
    simp [signRow, newline_not_mem_paint hsign, hpadded]
  have hhead : '\n' ∉ headRow color := by
    simpa [headRow] using newline_not_mem_paint (t := padRight 48 "SUMMARY".toList) (by decide) color .bold
  simp only [box, List.forall_mem_cons]
  exact ⟨by decide, hhead, hrow (by decide) h, hrow (by decide) (legible_ofNat _), hrow (by decide) (legible_ofNat _),
    hsign _ (by decide) (legible_bundled r), hsign _ (by decide) (legible_missing _),
    hrow (by decide) (legible_ofNat _), by decide, nofun⟩

theorem splitOn_lines_append {ls : List Text} (h : ∀ l ∈ ls, '\n' ∉ l) (s : Text) :
    splitOn ['\n'] (ls.flatMap (· ++ ['\n']) ++ s) = ls ++ splitOn ['\n'] s := by
  induction ls with
  | nil => rfl
  | cons l ls ih =>
    obtain ⟨hl, hls⟩ := List.forall_mem_cons.mp h
    calc splitOn ['\n'] ((l :: ls).flatMap (· ++ ['\n']) ++ s)
        = splitOn ['\n'] (l ++ '\n' :: (ls.flatMap (· ++ ['\n']) ++ s)) := by
          simp only [List.flatMap_cons, List.append_assoc, List.cons_append, List.nil_append]
      _ = l :: ls ++ splitOn ['\n'] s := by
          rw [splitOn_append_cons, splitOn_of_not_mem hl, ih hls]
          rfl

/-- Lines that are written one after another are lines of the text. -/
theorem infix_lines {ls : List Text} (h : ∀ l ∈ ls, '\n' ∉ l) {s : Text}
    (hs : '\n' :: ls.flatMap (· ++ ['\n']) <:+: s) : ls <:+: splitOn ['\n'] s := by
  obtain ⟨a, b, rfl⟩ := hs
  rw [List.append_assoc, List.cons_append, splitOn_append_cons, splitOn_lines_append h, ← List.append_assoc]
  exact ⟨_, _, rfl⟩

theorem box_infix_lines {r : Report} (h : Legible r.projectLabel) (color verbose : Bool) (project : Path) :
    box color r <:+: splitOn ['\n'] (render color verbose false project r) := by
  have habove : ∀ a b : Text, '\n' :: b <:+: a ++ "\n\n".toList ++ b := fun a b => ⟨a ++ ['\n'], [], by simp⟩
  have hbelow : ∀ {a b c : Text}, a <:+: b → a <:+: b ++ c := fun hab => hab.trans (List.prefix_append _ _).isInfix
  refine infix_lines (newline_not_mem_box h color) ?_
  -- Below the box stand where the bundle is written to, in three pieces, and two tables.
  exact hbelow (hbelow (hbelow (hbelow (hbelow (habove _ _)))))

/-! ## (4) Widths -/

def width (l : Text) : Nat := (plain l).length

def Aligned (ls : List Text) : Prop := ∃ n, ∀ l ∈ ls, width l = n

theorem aligned_iff {ls : List Text} : Aligned ls ↔ ∃ n, ∀ w ∈ ls.map width, w = n := by
  simp only [Aligned, List.forall_mem_map]

theorem length_row (t : Text) : (row t).length = 54 + (t.length - 48) := by
  simp [row, padRight]
  omega

theorem map_width_box {r : Report} (h : Legible r.projectLabel) (color : Bool) :
    (box color r).map width = 55 :: (contents r).map (fun t => 54 + (t.length - 48)) ++ [55] := by
  have hseen : (box color r).map width = ((box color r).map plain).map List.length := (List.map_map ..).symm
  have hrows : ((contents r).map row).map List.length = (contents r).map fun t => 54 + (t.length - 48) := by
    simp only [List.map_map, Function.comp_def, length_row]
  rw [hseen, map_plain_box h, List.map_append, List.map_cons, hrows]
  rfl

/-- Two classes of risk with their counts take at least 26 characters. -/
theorem length_topRisks_of_two {r : Report} {p q : Package} (hp : p ∈ r.bundled) (hq : q ∈ r.bundled)
    (hne : p.risk ≠ q.risk) : 26 ≤ (topRisks r).length := by
  have htitle : ∀ c : Risk, 7 ≤ c.title.length := by
    intro c
    cases c <;> decide
  have hdigits : ∀ n : Nat, 0 < (ofNat n).length := fun n => Nat.length_toDigits_pos
  have hmemp : p.risk ∈ ranking r := mem_ranking_iff.mpr ⟨p, hp, rfl⟩
  have hmemq : q.risk ∈ ranking r := mem_ranking_iff.mpr ⟨q, hq, rfl⟩
  rcases hranking : ranking r with _ | ⟨c, _ | ⟨d, rest⟩⟩
  · simp [hranking] at hmemp
  · rw [hranking, List.mem_singleton] at hmemp hmemq
    exact absurd (hmemp.trans hmemq.symm) hne
  · have hc := htitle c
    have hd := htitle d
    have hcn := hdigits (count r c)
    have hdn := hdigits (count r d)
    simp [topRisks_eq, hranking, bracketed, counted, List.intercalate_cons_cons]
    omega

/-- The borders stick out, of a box with a row that is not too long at the least: that of its title. -/
theorem not_aligned_box {r : Report} (h : Legible r.projectLabel) (color : Bool) : ¬ Aligned (box color r) := by
  rw [aligned_iff, map_width_box h]
  intro hall
  obtain ⟨n, hall⟩ := hall
  have hborder : 55 = n := hall _ List.mem_cons_self
  have htitle : 54 = n := hall _ (List.mem_cons_of_mem _ List.mem_cons_self)
  omega

/-- The rows between the borders are in line with one another iff no text is too long for its row. -/
theorem aligned_rows_iff {r : Report} (h : Legible r.projectLabel) (color : Bool) :
    Aligned (box color r).tail.dropLast ↔ ∀ t ∈ contents r, t.length ≤ 48 := by
  have hwidths : (box color r).tail.dropLast.map width = (contents r).map fun t => 54 + (t.length - 48) := by
    rw [List.map_dropLast, List.map_tail, map_width_box h]
    exact List.dropLast_concat
  rw [aligned_iff, hwidths]
  simp only [List.forall_mem_map]
  constructor
  · intro hall t ht
    obtain ⟨n, hall⟩ := hall
    have htitle : 54 = n := hall "SUMMARY".toList List.mem_cons_self
    have htext := hall t ht
    omega
  · intro hall
    refine ⟨54, fun t ht => ?_⟩
    have := hall t ht
    omega

/-- Two classes of risk push the border of their row out. -/
theorem exists_long_of_two_risks {r : Report} {p q : Package} (hp : p ∈ r.bundled) (hq : q ∈ r.bundled)
    (hne : p.risk ≠ q.risk) : ∃ t ∈ contents r, 48 < t.length := by
  refine ⟨_, List.mem_of_getElem? (i := 4) rfl, ?_⟩
  have := length_topRisks_of_two hp hq hne
  simp [padLeft]
  omega

/-- What is seen of the box, for every report. -/
theorem box_widths {r : Report} (h : Legible r.projectLabel) (color verbose : Bool) (project : Path) :
    box color r <:+: splitOn ['\n'] (render color verbose false project r) ∧
      (box color r).map width = 55 :: (contents r).map (fun t => 54 + (t.length - 48)) ++ [55] ∧
      ¬ Aligned (box color r) ∧
      (Aligned (box color r).tail.dropLast ↔ ∀ t ∈ contents r, t.length ≤ 48) ∧
      ∀ p ∈ r.bundled, ∀ q ∈ r.bundled, p.risk ≠ q.risk → ¬ Aligned (box color r).tail.dropLast := by
  refine ⟨box_infix_lines h color verbose project, map_width_box h color, not_aligned_box h color,
    aligned_rows_iff h color, ?_⟩
  intro p hp q hq hne haligned
  obtain ⟨t, ht, hlong⟩ := exists_long_of_two_risks hp hq hne
  have := (aligned_rows_iff h color).mp haligned t ht
  omega

def mixed : Report :=
  { output := Path.ofString "ALL_LICENSES.txt"
    projectLabel := "AFV Native".toList
    sublicenses := []
    packages :=
      [⟨"fmt".toList, Path.ofString "fmt", [Path.ofString "fmt/copyright"], some "MIT".toList, .permissive⟩,
        ⟨"own".toList, Path.ofString "own", [Path.ofString "own/copyright"], none, .unknown⟩] }

theorem box_widths_mixed : Legible mixed.projectLabel ∧
    box true mixed <:+: splitOn ['\n'] (render true true false (Path.ofString "/work/afv") mixed) ∧
    ¬ Aligned (box true mixed).tail.dropLast := by
  have hlabel : Legible mixed.projectLabel := by decide
  have hbox := box_widths hlabel true true (Path.ofString "/work/afv")
  have hrisks : (mixed.packages[0]).risk ≠ (mixed.packages[1]).risk := by decide
  exact ⟨hlabel, hbox.1, hbox.2.2.2.2 _ (by decide) _ (by decide) hrisks⟩

def unscanned : Report :=
  { output := Path.ofString "ALL_LICENSES.txt"
    projectLabel := "AFV Native".toList
    sublicenses := []
    packages := [] }

theorem topRisks_unscanned : topRisks unscanned = [] := by
  simp [topRisks, rankedRisks, classes, Report.bundled, unscanned]

/-- No text is too long here, and still the borders are longer than the rows by one character. -/
theorem borders_stick_out : Legible unscanned.projectLabel ∧
    (box true unscanned).map width = [55, 54, 54, 54, 54, 54, 54, 54, 55] ∧ ¬ Aligned (box true unscanned) := by
  have hlabel : Legible unscanned.projectLabel := by decide
  have hwidths : (box true unscanned).map width = [55, 54, 54, 54, 54, 54, 54, 54, 55] := by
    rw [box, topRisks_unscanned]
    decide
  exact ⟨hlabel, hwidths, not_aligned_box hlabel true⟩

end Summary

end Attribution
