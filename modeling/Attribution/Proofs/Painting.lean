/-
  Attribution.Proofs.Painting — colours change nothing but the colour.

  (1) A line break ends a colour code that is not complete (`plain_append_newline`). So the
  lines of a text without its codes are its lines without their codes (`splitOn_plain`).

  (2) A painted text is seen as it was, whatever stands behind it (`SeenAs`). This holds of
  any texts put together from such texts.

  (3) A table is drawn with strokes and the characters of its cells (`not_mem_render`), and
  a path is shown with characters that stand in it (`mem_decodeLossy`). So no escape comes
  into a report from anywhere but its texts and paths.

  (4) A report without escapes is printed in colours as it is printed without, but for the
  codes, line by line (`plain_render`).
-/
import Attribution.Proofs.Aligning
import Attribution.Proofs.Encoding
import Attribution.Proofs.Levels
import Mathlib.Data.List.Forall2

namespace Attribution

open Text

namespace Style

/-! ## (1) Lines without colours -/

theorem plainFrom_sublist (skip : Nat) (s : Text) : (plainFrom skip s).Sublist s := by
  fun_induction plainFrom skip s with
  | case1 => exact .refl _
  | case2 skip c s ih => exact ih.cons c
  | case3 c s h ih => exact ih.cons_cons c
  | case4 c s n h ih => exact ih.cons c

theorem codeLength_le (s : Text) : codeLength s ≤ s.length := by
  match s with
  | [] => exact Nat.le_refl 0
  | [_] => exact Nat.zero_le 1
  | c :: d :: s =>
    rw [codeLength]
    split
    · next hcode =>
      simp only [Bool.and_eq_true] at hcode
      have hparts := congrArg List.length (List.takeWhile_append_dropWhile (p := isParameter) (l := s))
      have hm : 0 < (s.dropWhile isParameter).length := by
        rw [List.length_pos_iff]
        intro hnil
        rw [hnil] at hcode
        exact absurd hcode.2 (by decide)
      rw [List.length_append] at hparts
      simp only [List.length_cons]
      omega
    · exact Nat.zero_le _

/-- A code does not reach over a line break. -/
theorem codeLength_append_newline {a : Text} (ha : a ≠ []) (b : Text) :
    codeLength (a ++ '\n' :: b) = codeLength a := by
  have hnewline : isParameter '\n' = false := by decide
  match a with
  | [c] => simp [codeLength]
  | c :: d :: a =>
    have hhead : ((a ++ '\n' :: b).dropWhile isParameter).head? = some 'm' ↔
        (a.dropWhile isParameter).head? = some 'm' := by
      rw [List.dropWhile_append]
      cases hdrop : a.dropWhile isParameter <;> simp [hnewline]
    have htake : (a ++ '\n' :: b).takeWhile isParameter = a.takeWhile isParameter := by
      rw [List.takeWhile_append, List.takeWhile_cons_of_neg (by simp [hnewline]), List.append_nil]
      split
      · next hwhole => exact ((List.takeWhile_prefix isParameter).eq_of_length hwhole).symm
      · rfl
    rw [List.cons_append, List.cons_append, codeLength, codeLength, htake]
    simp only [Bool.and_eq_true, beq_iff_eq, hhead]

theorem plainFrom_append_newline {skip : Nat} {a : Text} (hskip : skip ≤ a.length) (b : Text) :
    plainFrom skip (a ++ '\n' :: b) = plainFrom skip a ++ '\n' :: plain b := by
  induction a generalizing skip with
  | nil =>
    obtain rfl : skip = 0 := Nat.le_zero.mp hskip
    exact plain_cons (by decide) b
  | cons c a ih =>
    cases skip with
    | succ skip => exact ih (Nat.le_of_succ_le_succ hskip)
    | zero =>
      have hlength : codeLength (c :: a) ≤ a.length + 1 := codeLength_le (c :: a)
      have hcode : codeLength (c :: (a ++ '\n' :: b)) = codeLength (c :: a) :=
        codeLength_append_newline (List.cons_ne_nil c a) b
      rw [List.cons_append, plainFrom, plainFrom, hcode]
      cases hn : codeLength (c :: a) with
      | zero => exact congrArg (c :: ·) (ih (Nat.zero_le _))
      | succ n => exact ih (by omega)

theorem plain_append_newline (a b : Text) : plain (a ++ '\n' :: b) = plain a ++ '\n' :: plain b :=
  plainFrom_append_newline (Nat.zero_le _) b

/-- Without colour codes, a text has the lines that it had, without theirs. -/
theorem splitOn_plain (s : Text) : splitOn ['\n'] (plain s) = (splitOn ['\n'] s).map plain := by
  by_cases hs : '\n' ∈ s
  · obtain ⟨a, b, rfl, ha⟩ := List.eq_append_cons_of_mem hs
    have hplain : '\n' ∉ plain a := fun h => ha ((plainFrom_sublist 0 a).subset h)
    rw [plain_append_newline, splitOn_append_cons, splitOn_append_cons, splitOn_of_not_mem ha,
      splitOn_of_not_mem hplain, splitOn_plain b]
    rfl
  · have hplain : '\n' ∉ plain s := fun h => hs ((plainFrom_sublist 0 s).subset h)
    rw [splitOn_of_not_mem hs, splitOn_of_not_mem hplain]
    rfl
  termination_by s.length
  decreasing_by
    subst_vars
    simp only [List.length_append, List.length_cons]
    omega

/-! ## (2) What is seen -/

/-- The first text is seen as the second, whatever stands behind it. -/
def SeenAs (x t : Text) : Prop := ∀ s, plain (x ++ s) = t ++ plain s

variable {x y t u : Text}

theorem SeenAs.plain_eq (h : SeenAs x t) : plain x = t := by
  have hnil := h []
  rwa [List.append_nil, show plain [] = [] from rfl, List.append_nil] at hnil

theorem SeenAs.append (hx : SeenAs x t) (hy : SeenAs y u) : SeenAs (x ++ y) (t ++ u) := by
  intro s
  rw [List.append_assoc, hx, hy, List.append_assoc]

theorem seenAs_self (ht : escape ∉ t) : SeenAs t t := plain_append ht

/-- More text without codes may follow. -/
theorem SeenAs.followed (hx : SeenAs x t) (hu : escape ∉ u) : SeenAs (x ++ u) (t ++ u) := hx.append (seenAs_self hu)

theorem seenAs_paint (ht : escape ∉ t) (color : Bool) (st : Style) : SeenAs (st.paint color t) t :=
  plain_paint_append ht color st

theorem seenAs_lines {ls ms : List Text} (h : List.Forall₂ SeenAs ls ms) :
    SeenAs (ls.flatMap (· ++ ['\n'])) (ms.flatMap (· ++ ['\n'])) := by
  induction h with
  | nil => exact seenAs_self (by decide)
  | cons hl _ ih => exact (hl.followed (by decide)).append ih

end Style

/-! ## (3) Where the characters come from -/

namespace Text

/-- A character that is read stands in the bytes. -/
theorem encodeChar_infix_of_mem_readFrom {c : Char} {skip : Nat} {s : Bytes} (h : some c ∈ readFrom skip s) :
    encodeChar c <:+: s := by
  fun_induction readFrom skip s with
  | case1 => cases h
  | case2 skip b s ih => exact (ih h).trans (List.suffix_cons b s).isInfix
  | case3 b s ih =>
    rcases List.mem_cons.mp h with hfirst | hrest
    · rw [encodeChar_of_readChar (Prod.ext hfirst.symm rfl : readChar b s = (some c, (readChar b s).2))]
      exact ((List.prefix_cons_inj b).mpr (List.take_prefix _ s)).isInfix
    · exact (ih hrest).trans (List.suffix_cons b s).isInfix

theorem mem_decodeLossy {c : Char} {s : Bytes} (h : c ∈ decodeLossy s) : c = '\uFFFD' ∨ encodeChar c <:+: s := by
  obtain ⟨x, hx, rfl⟩ := List.mem_map.mp h
  cases x with
  | none => exact .inl rfl
  | some c => exact .inr (encodeChar_infix_of_mem_readFrom hx)

theorem not_mem_intercalate {c : Char} {sep : Text} (hsep : c ∉ sep) {ps : List Text} (h : ∀ p ∈ ps, c ∉ p) :
    c ∉ List.intercalate sep ps := by
  induction ps with
  | nil => exact List.not_mem_nil
  | cons p ps ih =>
    obtain ⟨hp, hps⟩ := List.forall_mem_cons.mp h
    cases ps with
    | nil =>
      rw [List.intercalate_singleton]
      exact hp
    | cons q qs =>
      rw [List.intercalate_cons_cons]
      simp only [List.mem_append, not_or]
      exact ⟨⟨hp, hsep⟩, ih hps⟩

end Text

theorem Path.escape_not_mem_shown {p : Path} (h : 0x1B ∉ p) : Style.escape ∉ p.shown := by
  intro hmem
  rcases mem_decodeLossy hmem with hfault | hin
  · exact absurd hfault (by decide)
  · exact h (hin.subset (show (0x1B : UInt8) ∈ encodeChar Style.escape by decide))

namespace Table

def strokes : Text := "\n ─│┆┌┬┐╞═╪╡├╌┼┤└┴┘".toList

theorem not_mem_between {c : Char} {line : Text} (hline : c ∉ line) {blocks : List (List Text)}
    (h : ∀ block ∈ blocks, ∀ l ∈ block, c ∉ l) : ∀ l ∈ between line blocks, c ∉ l := by
  fun_induction between line blocks with
  | case1 => exact nofun
  | case2 block => exact h block List.mem_cons_self
  | case3 block rest hrest ih =>
    obtain ⟨hblock, hblocks⟩ := List.forall_mem_cons.mp h
    exact List.forall_mem_append.mpr ⟨hblock, List.forall_mem_cons.mpr ⟨hline, ih hblocks⟩⟩

section Drawing

variable {c : Char} (hc : c ∉ strokes)

include hc

theorem ne_of_mem_strokes {d : Char} (hd : d ∈ strokes) : c ≠ d := fun h => hc (h ▸ hd)

theorem not_mem_fit {line : Text} (h : c ∉ line) (a : Alignment) (w : Nat) : c ∉ fit a w line := by
  have hblank : c ≠ ' ' := ne_of_mem_strokes hc (by decide)
  cases a <;> simp [fit, hblank, h]

theorem not_mem_rule {left fill cross right : Char} (hstrokes : [left, fill, cross, right] ⊆ strokes)
    (widths : List Nat) : c ∉ rule left fill cross right widths := by
  have hne : ∀ d ∈ [left, fill, cross, right], c ≠ d := fun d hd => ne_of_mem_strokes hc (hstrokes hd)
  have hcross : c ∉ [cross] := by simpa using hne cross (by simp)
  have hbars : ∀ p ∈ widths.map fun w => List.replicate (w + 2) fill, c ∉ p := by
    simp [hne fill (by simp)]
  simp only [rule, List.mem_append, List.mem_cons, List.not_mem_nil, or_false, not_or]
  exact ⟨⟨hne left (by simp), not_mem_intercalate hcross hbars⟩, hne right (by simp)⟩

theorem not_mem_rowLines {row : List Text} (h : ∀ cell ∈ row, c ∉ cell) (alignments : List Alignment)
    (widths : List Nat) : ∀ line ∈ rowLines alignments widths row, c ∉ line := by
  intro line hline
  obtain ⟨i, -, rfl⟩ := List.mem_map.mp hline
  have hwall : c ≠ '│' := ne_of_mem_strokes hc (by decide)
  have hpiece : ∀ lines ∈ row.map cellLines, c ∉ lines.getD i [] := by
    intro lines hlines
    obtain ⟨cell, hcell, rfl⟩ := List.mem_map.mp hlines
    rw [List.getD_eq_getElem?_getD]
    cases hi : (cellLines cell)[i]? with
    | none => exact List.not_mem_nil
    | some l =>
      exact fun hmem => h cell hcell ((infix_of_mem_splitOn (List.cons_ne_nil _ _) (List.mem_of_getElem? hi)).subset hmem)
  have hfitted : ∀ p ∈ List.zipWith (fun x l => fit x.1 x.2 (l.getD i [])) (alignments.zip widths) (row.map cellLines),
      c ∉ p := by
    intro p hp
    rw [← List.map_uncurry_zip_eq_zipWith] at hp
    obtain ⟨⟨x, lines⟩, hx, rfl⟩ := List.mem_map.mp hp
    exact not_mem_fit hc (hpiece lines (List.of_mem_zip hx).2) _ _
  simp only [List.mem_append, List.mem_cons, List.not_mem_nil, or_false, not_or]
  exact ⟨⟨hwall, not_mem_intercalate (by simpa using ne_of_mem_strokes hc (d := '┆') (by decide)) hfitted⟩, hwall⟩

/-- A table has no characters but its strokes and those of its cells. -/
theorem not_mem_render {t : Table} (hheader : ∀ cell ∈ t.header, c ∉ cell)
    (hrows : ∀ row ∈ t.rows, ∀ cell ∈ row, c ∉ cell) : c ∉ t.render := by
  have hblocks : ∀ block ∈ t.rows.map (rowLines t.alignments t.columnWidths), ∀ l ∈ block, c ∉ l := by
    intro block hblock
    obtain ⟨row, hrow, rfl⟩ := List.mem_map.mp hblock
    exact not_mem_rowLines hc (hrows row hrow) _ _
  refine not_mem_intercalate (by simpa using ne_of_mem_strokes hc (d := '\n') (by decide)) ?_
  refine List.forall_mem_cons.mpr ⟨not_mem_rule hc (by decide) _, List.forall_mem_append.mpr
    ⟨not_mem_rowLines hc hheader _ _, List.forall_mem_cons.mpr ⟨not_mem_rule hc (by decide) _,
      List.forall_mem_append.mpr ⟨not_mem_between (not_mem_rule hc (by decide) _) hblocks, ?_⟩⟩⟩⟩
  rw [List.forall_mem_singleton]
  exact not_mem_rule hc (by decide) _

end Drawing

end Table

/-! ## (4) The report -/

structure Report.Unescaped (r : Report) : Prop where
  output : 0x1B ∉ r.output
  projectLabel : Style.escape ∉ r.projectLabel
  names : ∀ p ∈ r.packages, Style.escape ∉ p.name
  paths : ∀ p ∈ r.packages, 0x1B ∉ p.path
  licenses : ∀ p ∈ r.packages, ∀ l ∈ p.license, Style.escape ∉ l

namespace Summary

open Style (escape plain SeenAs seenAs_self seenAs_paint)

variable {r : Report}

theorem seenAs_row {t : Text} (ht : escape ∉ t) : SeenAs (row t) (row t) := by
  have hblank : escape ≠ ' ' := by decide
  have hpadded : escape ∉ padRight 48 t := by simp [padRight, ht, hblank]
  exact ((seenAs_self (by decide)).followed hpadded).followed (by decide)

theorem seenAs_signRow {sign t : Text} (hsign : escape ∉ sign) (ht : Legible t) (color : Bool) (st : Style) :
    SeenAs (signRow (st.paint color sign) t) (signRow sign t) := by
  have hpadded : escape ∉ padRight 45 t := (ht.padRight 45).not_mem (by decide)
  exact ((((seenAs_self (by decide)).append (seenAs_paint hsign color st)).followed (by decide)).followed
    hpadded).followed (by decide)

theorem seenAs_headRow (color : Bool) : SeenAs (headRow color) (headRow false) :=
  ((seenAs_self (by decide)).append (seenAs_paint (by decide) color .bold)).followed (by decide)

theorem seenAs_box (h : escape ∉ r.projectLabel) (color : Bool) :
    List.Forall₂ SeenAs (box color r) (box false r) := by
  have hlabel : escape ∉ "Project license    : ".toList ++ r.projectLabel :=
    List.not_mem_append (by decide) h
  have hnumber : ∀ {label : Text}, Legible label → ∀ n, escape ∉ label ++ ofNat n :=
    fun hlegible n => (hlegible.append (legible_ofNat n)).not_mem (by decide)
  exact .cons (seenAs_self (by decide)) (.cons (seenAs_headRow color) (.cons (seenAs_row hlabel)
    (.cons (seenAs_row (hnumber (by decide) _)) (.cons (seenAs_row (hnumber (by decide) _))
    (.cons (seenAs_signRow (by decide) (legible_bundled r) color .green)
    (.cons (seenAs_signRow (by decide) (legible_missing _) color .yellow)
    (.cons (seenAs_row (hnumber (by decide) _)) (.cons (seenAs_self (by decide)) .nil))))))))

theorem seenAs_listing {sign headline : Text} {t : Table} (hsign : escape ∉ sign) (hheadline : escape ∉ headline)
    (ht : escape ∉ t.render) (color : Bool) (st : Style) :
    SeenAs (listing (st.paint color sign) headline t) (listing sign headline t) :=
  ((((((seenAs_self (by decide)).append (seenAs_paint hsign color st)).followed (by decide)).followed
    hheadline).followed (by decide)).followed ht).followed (by decide)

theorem escape_not_mem_missingTable (h : r.Unescaped) : escape ∉ (missingTable r).render := by
  have hheader : ∀ cell ∈ ["Name".toList, "Path".toList], escape ∉ cell := by decide
  refine Table.not_mem_render (by decide) hheader fun row hrow => ?_
  obtain ⟨p, hp, rfl⟩ := List.mem_map.mp hrow
  have hmem : p ∈ r.packages := (List.mem_filter.mp hp).1
  simp only [List.forall_mem_cons]
  exact ⟨h.names p hmem, Path.escape_not_mem_shown (h.paths p hmem), nofun⟩

theorem escape_not_mem_bundledTable (h : r.Unescaped) : escape ∉ (bundledTable r).render := by
  have hheader : ∀ cell ∈ ["Name".toList, "Files".toList, "License".toList, "Risk".toList], escape ∉ cell := by
    decide
  refine Table.not_mem_render (by decide) hheader fun row hrow => ?_
  obtain ⟨p, hp, rfl⟩ := List.mem_map.mp hrow
  have hmem : p ∈ r.packages := (List.mem_filter.mp hp).1
  have hfiles : escape ∉ ofNat p.copyrightPaths.length := (legible_ofNat _).not_mem (by decide)
  have hlicense : escape ∉ p.license.getD "unrecognized".toList := by
    cases hl : p.license with
    | none => decide
    | some l => exact h.licenses p hmem l hl
  have hrisk : escape ∉ p.risk.title := by cases p.risk <;> decide
  simp only [List.forall_mem_cons]
  exact ⟨h.names p hmem, hfiles, hlicense, hrisk, nofun⟩

theorem seenAs_brief (h : r.Unescaped) (color : Bool) : SeenAs (brief color r) (brief false r) := by
  have hcount : ∀ (n : Nat) (st : Style), SeenAs (st.paint color (ofNat n)) (ofNat n) :=
    fun n st => seenAs_paint ((legible_ofNat n).not_mem (by decide)) color st
  have htotal : escape ∉ ofNat r.packages.length := (legible_ofNat _).not_mem (by decide)
  exact ((((((((seenAs_self (by decide)).followed htotal).followed (by decide)).append (hcount _ .green)).followed
    (by decide)).append (hcount _ .yellow)).followed (by decide)).followed
    (Path.escape_not_mem_shown h.output)).followed (by decide)

theorem seenAs_full {project : Path} (h : r.Unescaped) (hproject : 0x1B ∉ project) (color verbose : Bool) :
    SeenAs (full color verbose project r) (full false verbose project r) := by
  have hhead : SeenAs ("\n ".toList ++ Style.bold.paint color programName ++ " v".toList ++ version ++ "\n".toList ++
      " Project: ".toList ++ project.shown ++ "\n\n".toList)
      ("\n ".toList ++ programName ++ " v".toList ++ version ++ "\n".toList ++ " Project: ".toList ++
        project.shown ++ "\n\n".toList) :=
    (((((((seenAs_self (by decide)).append (seenAs_paint (by decide) color .bold)).followed (by decide)).followed
      (by decide)).followed (by decide)).followed (by decide)).followed
      (Path.escape_not_mem_shown hproject)).followed (by decide)
  have hbox := Style.seenAs_lines (seenAs_box h.projectLabel color)
  have houtput := seenAs_paint (Path.escape_not_mem_shown h.output) color .bold
  have hmissing : SeenAs
      (if 0 < missingCount r then listing (Style.boldYellow.paint color "[WARN]".toList)
        "Packages without a copyright file:".toList (missingTable r) else [])
      (if 0 < missingCount r then listing "[WARN]".toList
        "Packages without a copyright file:".toList (missingTable r) else []) := by
    split
    · exact seenAs_listing (by decide) (by decide) (escape_not_mem_missingTable h) color .boldYellow
    · exact seenAs_self List.not_mem_nil
  have hbundled : SeenAs
      (if verbose && 0 < r.bundled.length then
        listing (Style.boldGreen.paint color "[OK]".toList) "Bundled packages:".toList (bundledTable r) else [])
      (if verbose && 0 < r.bundled.length then
        listing "[OK]".toList "Bundled packages:".toList (bundledTable r) else []) := by
    split
    · exact seenAs_listing (by decide) (by decide) (escape_not_mem_bundledTable h) color .boldGreen
    · exact seenAs_self List.not_mem_nil
  exact (((((hhead.append hbox).followed (by decide)).append houtput).followed (by decide)).append hmissing).append
    hbundled

/-- What is printed in colours is, without its colour codes, what is printed without colours: as a
    whole, and line by line. -/
theorem plain_render {project : Path} (h : r.Unescaped) (hproject : 0x1B ∉ project) (verbose quiet : Bool) :
    plain (render true verbose quiet project r) = render false verbose quiet project r ∧
      (splitOn ['\n'] (render true verbose quiet project r)).map plain =
        splitOn ['\n'] (render false verbose quiet project r) := by
  have hseen : SeenAs (render true verbose quiet project r) (render false verbose quiet project r) := by
    unfold render
    split
    · exact seenAs_brief h true
    · exact seenAs_full h hproject true verbose
  exact ⟨hseen.plain_eq, by rw [← Style.splitOn_plain, hseen.plain_eq]⟩

theorem plain_render_mixed : mixed.Unescaped ∧ 0x1B ∉ Path.ofString "/work/afv" ∧
    plain (render true true false (Path.ofString "/work/afv") mixed) =
      render false true false (Path.ofString "/work/afv") mixed := by
  have hmixed : mixed.Unescaped := ⟨by decide, by decide, by decide, by decide, by decide⟩
  have hproject : 0x1B ∉ Path.ofString "/work/afv" := by decide
  exact ⟨hmixed, hproject, (plain_render hmixed hproject true false).1⟩

end Summary

end Attribution
