/-
  Attribution.Proofs.Heading — which texts are under a license of the GNU family.

  (1) The titles of the family (`gnuTitles`) start with `GNU` and end with a version. A
  text opens with a title if it reads its words one after the other, in letters of either
  case, parted by white space (`Opens`). A title is placed in a text if it opens a line,
  indented or not (`Title.Placed`).

  (2) The search for a title finds it iff it is placed (`Title.foundIn_iff_placed`): that
  the white space in front of a title may run over several lines makes no difference, since
  the last of these lines is a line too (`headed_iff`).

  (3) So a text without a tag is under a license of the family iff a title is placed in it,
  under that of the first title placed, and never for a license named only inside of lines
  (`license_eq_title_iff`).
-/
import Attribution.Proofs.Wording
import Mathlib.Data.List.Nodup

namespace Attribution

open Text
open Tag (Blank)

namespace Phrase

open Pattern

/-! ## (1) Titles -/

structure Title where
  id : Text
  kind : List Text
  version : Text
  unspaced : ∀ w ∈ version :: kind, ' ' ∉ w := by decide
  deriving DecidableEq

def Title.words (t : Title) : List Text :=
  "GNU".toList :: (t.kind ++ ["GENERAL".toList, "PUBLIC".toList, "LICENSE".toList, "Version".toList, t.version])

/-- The titles of the family, in the order in which they are tried. -/
def gnuTitles : List Title :=
  [{ id := "AGPL-3.0".toList, kind := ["AFFERO".toList], version := "3".toList },
    { id := "LGPL-2.1".toList, kind := ["LESSER".toList], version := "2.1".toList },
    { id := "LGPL-3.0".toList, kind := ["LESSER".toList], version := "3".toList },
    { id := "GPL-3.0".toList, kind := [], version := "3".toList },
    { id := "GPL-2.0".toList, kind := [], version := "2".toList },
    { id := "LGPL-2.0".toList, kind := ["LIBRARY".toList], version := "2".toList }]

/-- A text starts with the words: case does not matter, and white space parts them. What follows
    the last of them is free. -/
inductive Opens : List Text → Text → Prop
  | last {w v : Text} (hw : v.map fold = w.map fold) (rest : Text) : Opens [w] (v ++ rest)
  | more {w v g : Text} {ws : List Text} {s : Text} (hw : v.map fold = w.map fold) (hne : g ≠ []) (hg : Blank g) :
      Opens ws s → Opens (w :: ws) (v ++ (g ++ s))

def OpensLine (ws : List Text) (s : Text) : Prop :=
  ∃ before indent rest, s = before ++ (indent ++ rest) ∧ EndsLine before ∧ (Blank indent ∧ '\n' ∉ indent) ∧ Opens ws rest

def Title.Placed (t : Title) (s : Text) : Prop := OpensLine t.words s

/-! ## (2) Finding a title -/

def Title.phrase (t : Title) : Phrase := ⟨t.id, title (List.intercalate " ".toList t.words)⟩

theorem headed_iff {a : Text} :
    Headed a ↔ ∃ before indent, a = before ++ indent ∧ EndsLine before ∧ Blank indent ∧ '\n' ∉ indent := by
  constructor
  · rintro ⟨b, u, rfl, hb, hu⟩
    by_cases hmem : '\n' ∈ u
    · -- The title's own line is the one behind the last line break.
      obtain ⟨d, c, hsplit, hd⟩ := List.eq_append_cons_of_mem (List.mem_reverse.mpr hmem)
      have hu' : u = (c.reverse ++ ['\n']) ++ d.reverse := by
        rw [← List.reverse_reverse u, hsplit]
        simp
      refine ⟨b ++ (c.reverse ++ ['\n']), d.reverse, by rw [hu', List.append_assoc, List.append_assoc, List.append_assoc], .inr (by simp), fun x hx => ?_, ?_⟩
      · exact hu x (hu' ▸ List.mem_append_right _ hx)
      · exact fun hx => hd (List.mem_reverse.mp hx)
    · exact ⟨b, u, rfl, hb, hu, hmem⟩
  · intro ⟨before, indent, ha, hbefore, hindent, _⟩
    exact ⟨before, indent, ha, hbefore, hindent⟩

theorem reads_word {w : Text} (hw : ' ' ∉ w) {u s r : Text} :
    (spelled (w ++ u)).Reads s r ↔ ∃ v m, s = v ++ m ∧ v.map fold = w.map fold ∧ (spelled u).Reads m r := by
  induction w generalizing s with
  | nil =>
    constructor
    · intro h
      exact ⟨[], s, rfl, rfl, h⟩
    · rintro ⟨v, m, rfl, hv, h⟩
      rwa [List.map_eq_nil_iff.mp hv]
  | cons c w ih =>
    obtain ⟨hc, hw⟩ := not_or.mp (mt List.mem_cons.mpr hw)
    rw [List.cons_append, reads_spelled_cons]
    constructor
    · intro ⟨m, hletter, hrest⟩
      obtain ⟨x, rfl, hx⟩ := (reads_letter (Ne.symm hc)).mp hletter
      obtain ⟨v, m', rfl, hv, hrest⟩ := (ih hw).mp hrest
      exact ⟨x :: v, m', rfl, by rw [List.map_cons, List.map_cons, hx, hv], hrest⟩
    · rintro ⟨v, m, rfl, hv, hrest⟩
      obtain ⟨x, v, rfl, hx, hv⟩ := List.map_eq_cons_iff.mp hv
      exact ⟨v ++ m, (reads_letter (Ne.symm hc)).mpr ⟨x, rfl, hx⟩, (ih hw).mpr ⟨v, m, rfl, hv, hrest⟩⟩

/-- Words with spaces between them are read where a text opens with the words. -/
theorem reads_words_iff : ∀ {ws : List Text}, ws ≠ [] → (∀ w ∈ ws, ' ' ∉ w) → ∀ s : Text,
    (∃ r, (spelled (List.intercalate " ".toList ws)).Reads s r) ↔ Opens ws s
  | [w], _, hws, s => by
    have hw := hws w List.mem_cons_self
    rw [List.intercalate_singleton]
    constructor
    · intro ⟨r, h⟩
      rw [← List.append_nil w] at h
      obtain ⟨v, m, rfl, hv, -⟩ := (reads_word hw).mp h
      exact .last hv m
    · intro h
      cases h with
      | last hv rest =>
        refine ⟨rest, ?_⟩
        rw [← List.append_nil w]
        exact (reads_word hw).mpr ⟨_, rest, rfl, hv, reads_spelled_nil.mpr rfl⟩
      | more _ _ _ h => cases h
  | w :: w' :: ws, _, hws, s => by
    obtain ⟨hw, hws⟩ := List.forall_mem_cons.mp hws
    have ih := reads_words_iff (List.cons_ne_nil w' ws) hws
    have hspace : List.intercalate " ".toList (w :: w' :: ws) = w ++ ' ' :: List.intercalate " ".toList (w' :: ws) := by
      rw [List.intercalate_cons_cons]
      simp
    rw [hspace]
    constructor
    · intro ⟨r, h⟩
      obtain ⟨v, m, rfl, hv, h⟩ := (reads_word hw).mp h
      obtain ⟨m', hgap, hrest⟩ := reads_spelled_cons.mp h
      obtain ⟨g, rfl, hne, hg⟩ := reads_space.mp hgap
      exact .more hv hne hg ((ih _).mp ⟨r, hrest⟩)
    · intro h
      cases h with
      | more hv hne hg h =>
        obtain ⟨r, hrest⟩ := (ih _).mpr h
        exact ⟨r, (reads_word hw).mpr ⟨_, _, rfl, hv, reads_spelled_cons.mpr ⟨_, reads_space.mpr ⟨_, rfl, hne, hg⟩, hrest⟩⟩⟩

theorem Title.unspaced_words (t : Title) : ∀ w ∈ t.words, ' ' ∉ w := by
  have hversion := t.unspaced t.version List.mem_cons_self
  have hkind : ∀ w ∈ t.kind, ' ' ∉ w := fun w hw => t.unspaced w (List.mem_cons_of_mem _ hw)
  have hshared : ∀ w ∈ ["GENERAL".toList, "PUBLIC".toList, "LICENSE".toList, "Version".toList], ' ' ∉ w := by decide
  have hend := List.forall_mem_append.mpr ⟨hshared, List.forall_mem_singleton.mpr hversion⟩
  exact List.forall_mem_cons.mpr ⟨by decide, List.forall_mem_append.mpr ⟨hkind, hend⟩⟩

theorem Title.foundIn_iff_placed (t : Title) {s : Text} : t.phrase.pattern.foundIn s = true ↔ t.Placed s := by
  have hwords := reads_words_iff (List.cons_ne_nil _ _) t.unspaced_words
  rw [phrase, title, foundIn_lineHead_iff (isUnanchored_spelled _)]
  constructor
  · rintro ⟨a, r, r', rfl, hhead, hreads⟩
    obtain ⟨before, indent, rfl, hbefore, hindent⟩ := headed_iff.mp hhead
    exact ⟨before, indent, r, List.append_assoc .., hbefore, hindent, (hwords r).mp ⟨r', hreads⟩⟩
  · rintro ⟨before, indent, r, rfl, hbefore, hindent, hopens⟩
    obtain ⟨r', hreads⟩ := (hwords r).mpr hopens
    exact ⟨before ++ indent, r, r', (List.append_assoc ..).symm, headed_iff.mpr ⟨before, indent, rfl, hbefore, hindent⟩, hreads⟩

instance (t : Title) (s : Text) : Decidable (t.Placed s) := decidable_of_iff _ t.foundIn_iff_placed

/-! ## (3) Licenses of the family -/

def others : List Phrase := all.drop 6

theorem all_eq : all = gnuTitles.map Title.phrase ++ others := by rfl

theorem id_ne_of_mem_others : ∀ x ∈ others, ∀ t ∈ gnuTitles, x.id ≠ t.id := by decide

theorem eq_of_id_eq : ∀ t ∈ gnuTitles, ∀ t' ∈ gnuTitles, t.id = t'.id → t = t' := by decide

theorem Opens.first {w : Text} {ws : List Text} {s : Text} (h : Opens (w :: ws) s) : Opens [w] s := by
  cases h with
  | last hw rest => exact .last hw rest
  | more hw _ _ _ => exact .last hw _

theorem Title.Placed.gnu {t : Title} {s : Text} (h : t.Placed s) : OpensLine ["GNU".toList] s := by
  obtain ⟨before, indent, rest, hs, hbefore, hindent, hopens⟩ := h
  exact ⟨before, indent, rest, hs, hbefore, hindent, hopens.first⟩

end Phrase

namespace Detection

open Phrase

theorem byPhrase_eq (s : Text) : byPhrase s = ((gnuTitles.find? (·.Placed s)).map Title.id).or
    ((others.find? (·.pattern.foundIn s)).map Phrase.id) := by
  have hplaced : (fun t : Title => t.phrase.pattern.foundIn s) = fun t => decide (t.Placed s) := by
    funext t
    rw [Bool.eq_iff_iff, t.foundIn_iff_placed, decide_eq_true_iff]
  rw [byPhrase, all_eq, List.find?_append, List.find?_map, Option.map_or, Option.map_map]
  exact congrArg (fun p => ((gnuTitles.find? p).map Title.id).or _) hplaced

/-- A text without a tag is under the license of a title iff that is the first one placed. -/
theorem license_eq_iff_find? {s : Text} (h : mentions Tag.mark s = false) {t : Title} (ht : t ∈ gnuTitles) :
    license s = some t.id ↔ gnuTitles.find? (·.Placed s) = some t := by
  rw [license_of_unmarked h, byPhrase_eq]
  cases hfind : gnuTitles.find? (·.Placed s) with
  | some t' =>
    rw [Option.map_some, Option.some_or, Option.some.injEq, Option.some.injEq]
    constructor
    · exact eq_of_id_eq t' (List.mem_of_find?_eq_some hfind) t ht
    · rintro rfl
      rfl
  | none =>
    rw [Option.map_none, Option.none_or]
    refine iff_of_false (fun hother => ?_) nofun
    obtain ⟨x, hx, hid⟩ := Option.map_eq_some_iff.mp hother
    exact id_ne_of_mem_others x (List.mem_of_find?_eq_some hx) t ht hid

theorem exists_license_eq_iff {s : Text} (h : mentions Tag.mark s = false) :
    (∃ t ∈ gnuTitles, license s = some t.id) ↔ ∃ t ∈ gnuTitles, t.Placed s := by
  constructor
  · intro ⟨t, ht, hlicense⟩
    have hfirst := List.find?_some ((license_eq_iff_find? h ht).mp hlicense)
    exact ⟨t, ht, of_decide_eq_true hfirst⟩
  · intro ⟨t, ht, hplaced⟩
    have hsome : (gnuTitles.find? (·.Placed s)).isSome = true :=
      List.find?_isSome.mpr ⟨t, ht, decide_eq_true hplaced⟩
    obtain ⟨t', hfind⟩ := Option.isSome_iff_exists.mp hsome
    have ht' := List.mem_of_find?_eq_some hfind
    exact ⟨t', ht', (license_eq_iff_find? h ht').mpr hfind⟩

theorem license_eq_iff_first {s : Text} (h : mentions Tag.mark s = false) {before after : List Title} {t : Title}
    (hsplit : gnuTitles = before ++ t :: after) :
    license s = some t.id ↔ t.Placed s ∧ ∀ t' ∈ before, ¬ t'.Placed s := by
  have ht : t ∈ gnuTitles := by rw [hsplit]; simp
  have hnodup : (before ++ t :: after).Nodup := hsplit ▸ (by decide : gnuTitles.Nodup)
  obtain ⟨hbefore, hafter⟩ := not_or.mp (mt List.mem_append.mpr (List.nodup_cons.mp (List.nodup_middle.mp hnodup)).1)
  rw [license_eq_iff_find? h ht, List.find?_eq_some_iff_append]
  constructor
  · intro ⟨hplaced, before', after', hsplit', hnone⟩
    obtain ⟨rfl, -, -⟩ := (List.append_cons_inj_of_notMem hbefore hafter).mp (hsplit.symm.trans hsplit')
    exact ⟨of_decide_eq_true hplaced, fun t' ht' => by simpa using hnone t' ht'⟩
  · intro ⟨hplaced, hnone⟩
    exact ⟨decide_eq_true hplaced, before, after, hsplit, fun t' ht' => by simpa using hnone t' ht'⟩

/-- A text without a tag is under a license of the GNU family iff a title of the family is the
    first thing in one of its lines, and the license is that of the first title so placed. A text
    in which no line starts with `GNU` is under none of these licenses. -/
theorem license_eq_title_iff {s : Text} (h : mentions Tag.mark s = false) :
    ((∃ t ∈ gnuTitles, license s = some t.id) ↔ ∃ t ∈ gnuTitles, t.Placed s) ∧
    (∀ before t after, gnuTitles = before ++ t :: after →
      (license s = some t.id ↔ t.Placed s ∧ ∀ t' ∈ before, ¬ t'.Placed s)) ∧
    (¬ OpensLine ["GNU".toList] s → ∀ t ∈ gnuTitles, license s ≠ some t.id) := by
  refine ⟨exists_license_eq_iff h, fun before t after => license_eq_iff_first h, fun hinside t ht hlicense => ?_⟩
  obtain ⟨t', -, hplaced⟩ := (exists_license_eq_iff h).mp ⟨t, ht, hlicense⟩
  exact hinside hplaced.gnu

/-- The title of the GPL in small letters and with a long s, on two lines below another. -/
theorem license_eq_title_iff_gpl :
    license "Copyright 2020\n\n  GNU general public licen\u017Fe\n\tversion 2, June 1991".toList = some "GPL-2.0".toList :=
  ((license_eq_title_iff (by decide)).2.1 (gnuTitles.take 4) { id := "GPL-2.0".toList, kind := [], version := "2".toList }
    (gnuTitles.drop 5) rfl).mpr ⟨by decide +kernel, by decide +kernel⟩

end Detection

end Attribution
