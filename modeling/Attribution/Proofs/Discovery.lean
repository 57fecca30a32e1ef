/-
  Attribution.Proofs.Discovery — which packages and files are found, and in which order.

  (1) Names and ways down are sorted strictly: each stands once, and before all that are
  greater byte by byte (`pairwise_sort`).

  (2) A name joined to a path is the last of its pieces, and the pieces before it come
  from the path alone (`pieces_join`).

  (3) The package directories are exactly the children of the directory that lead to a
  directory, in the order of their names (`Listed`, `subdirectories?_eq_some`). Each
  is named after its child (`nameOf_join`).

  (4) The files that are found beneath a directory are exactly the nodes of the name
  that are files or links to files, in the order of the names on the way down
  (`Discovered`, `findFiles_eq_ok`).
-/
import Attribution.Package
import Attribution.Tree.Walk
import Mathlib.Data.List.Nodup
import Mathlib.Data.List.Sort

namespace Attribution

/-! ## (1) Order -/

section Order

variable {α β : Type} [DecidableEq β] [LT β] [LE β] [DecidableLT β] [Std.IsLinearOrder β] [Std.LawfulOrderLT β]

/-- Sorting by keys that are all different is strict. -/
theorem pairwise_sort (key : α → List β) {xs : List α} (h : (xs.map key).Nodup) :
    ((xs.mergeSort fun a b => decide (key a ≤ key b)).map key).Pairwise (· < ·) := by
  have hsorted : (xs.mergeSort fun a b => decide (key a ≤ key b)).Pairwise fun a b => decide (key a ≤ key b) = true :=
    List.pairwise_mergeSort
      (fun a b c hab hbc => by simpa using List.le_trans (by simpa using hab) (by simpa using hbc))
      (fun a b => by simpa using List.le_total (key a) (key b)) xs
  have hnodup := ((List.mergeSort_perm xs fun a b => decide (key a ≤ key b)).map key).nodup_iff.mpr h
  rw [List.pairwise_map]
  refine (hsorted.and (List.pairwise_map.mp hnodup)).imp fun {a b} hab => ?_
  rcases List.le_iff_lt_or_eq.mp (of_decide_eq_true hab.1) with hlt | heq
  · exact hlt
  · exact absurd heq hab.2

end Order

/-! ## (2) Names joined to a path -/

namespace Path

theorem pieces_ne_nil (p : Path) : pieces p ≠ [] := by
  cases p with
  | nil => simp [pieces]
  | cons b p =>
    rw [pieces]
    split
    · simp
    · split <;> simp

theorem pieces_append_slash (a b : Path) : pieces (a ++ slash :: b) = pieces a ++ pieces b := by
  induction a with
  | nil => simp [pieces]
  | cons c a ih =>
    obtain ⟨first, rest, hfirst⟩ := List.exists_cons_of_ne_nil (pieces_ne_nil a)
    rw [List.cons_append, pieces, pieces, ih, hfirst]
    by_cases hc : c = slash
    · rw [if_pos (beq_iff_eq.mpr hc), if_pos (beq_iff_eq.mpr hc)]
      rfl
    · rw [if_neg (fun h => hc (beq_iff_eq.mp h)), if_neg (fun h => hc (beq_iff_eq.mp h))]
      rfl

theorem pieces_of_no_slash {n : Path} (h : slash ∉ n) : pieces n = [n] := by
  induction n with
  | nil => rfl
  | cons b n ih =>
    rw [List.mem_cons, not_or] at h
    rw [pieces, ih h.2, if_neg (fun hb => h.1 (beq_iff_eq.mp hb).symm)]

/-- The pieces of a path that stay in front of a name joined to it. -/
def stem (root : Path) : List Bytes :=
  if root = [] then [] else if root.getLast? = some slash then (pieces root).dropLast else pieces root

theorem stem_append_slash (r : Path) : stem (r ++ [slash]) = pieces r := by
  rw [stem, if_neg (by simp), if_pos (by simp), pieces_append_slash r []]
  simp [pieces]

theorem stem_append_of_ne (r : Path) {b : UInt8} (hb : b ≠ slash) : stem (r ++ [b]) = pieces (r ++ [b]) := by
  rw [stem, if_neg (by simp), if_neg (by simp [hb])]

theorem isAbsolute_of_no_slash {n : Bytes} (h : slash ∉ n) : ¬ isAbsolute n = true := by
  rw [isAbsolute, beq_iff_eq]
  intro hn
  exact h (List.mem_of_head? hn)

theorem pieces_join (root : Path) {n : Bytes} (h : slash ∉ n) : pieces (root.join n) = stem root ++ [n] := by
  rw [join_of_not_isAbsolute (isAbsolute_of_no_slash h)]
  rcases List.eq_nil_or_concat root with rfl | ⟨r, b, rfl⟩
  · simp [separator, stem, pieces_of_no_slash h]
  · rw [List.concat_eq_append]
    by_cases hb : b = slash
    · rw [hb, stem_append_slash, separator, if_pos (by simp), List.append_nil, List.append_assoc]
      exact (pieces_append_slash r n).trans (by rw [pieces_of_no_slash h])
    · rw [stem_append_of_ne r hb, separator, if_neg (by simp [hb]), List.append_assoc]
      exact (pieces_append_slash (r ++ [b]) n).trans (by rw [pieces_of_no_slash h])

end Path

namespace Tree

variable {t : Tree} {here : Location}

theorem node?_ne_none_iff_mem {l : Location} (hl : l ≠ []) : t.node? l ≠ none ↔ l ∈ t.entries.map Prod.fst := by
  constructor
  · intro h
    obtain ⟨n, hn⟩ := Option.ne_none_iff_exists'.mp h
    rcases t.node?_eq_some_iff.mp hn with ⟨h0, -⟩ | hm
    · exact absurd h0 hl
    · exact List.mem_map_of_mem hm
  · intro h
    obtain ⟨⟨k, n⟩, hm, rfl⟩ := List.mem_map.mp h
    rw [t.node?_eq_some_iff.mpr (Or.inr hm)]
    simp

/-! ## (3) Package directories -/

def nameIn (dir l : Location) : Option Bytes := if l.dropLast = dir then l.getLast? else none

theorem nameIn_eq_some_iff {dir l : Location} {n : Bytes} : nameIn dir l = some n ↔ l = dir ++ [n] := by
  unfold nameIn
  rcases List.eq_nil_or_concat l with rfl | ⟨k, m, rfl⟩
  · simp
  · rw [List.concat_eq_append, List.dropLast_concat, List.getLast?_concat]
    by_cases hk : k = dir
    · rw [if_pos hk, hk]
      simp
    · rw [if_neg hk]
      refine iff_of_false (by simp) fun h => hk ?_
      exact (List.append_inj' h rfl).1

theorem names_eq (t : Tree) (dir : Location) : t.names dir = (t.entries.map Prod.fst).filterMap (nameIn dir) := by
  rw [names, List.filterMap_map]
  rfl

theorem mem_names_iff {dir : Location} {n : Bytes} : n ∈ t.names dir ↔ t.node? (dir ++ [n]) ≠ none := by
  rw [names_eq, List.mem_filterMap, node?_ne_none_iff_mem (by simp)]
  simp only [nameIn_eq_some_iff, exists_eq_right]

theorem nodup_names (t : Tree) (dir : Location) : (t.names dir).Nodup := by
  rw [names_eq]
  refine t.wellFormed.nodup.filterMap fun l l' n hl hl' => ?_
  rw [Option.mem_def, nameIn_eq_some_iff] at hl hl'
  rw [hl, hl']

theorem pairwise_sortedNames (t : Tree) (dir : Location) : (t.sortedNames dir).Pairwise (· < ·) := by
  rw [sortedNames]
  simpa using pairwise_sort (fun n : Bytes => n) (by simpa using nodup_names t dir)

/-- Names that the tree lists in order stay as they are. -/
theorem sortedNames_of_ordered {l : Location} (h : (t.names l).Pairwise (· ≤ ·)) : t.sortedNames l = t.names l :=
  List.mergeSort_of_pairwise (h.imp decide_eq_true)

theorem isName_of_node? {dir : Location} {n : Bytes} (h : t.node? (dir ++ [n]) ≠ none) : IsName n := by
  rw [node?_ne_none_iff_mem (by simp)] at h
  obtain ⟨e, he, hl⟩ := List.mem_map.mp h
  exact (t.wellFormed.named e he).2 n (by simp [hl])

structure Listed (t : Tree) (here : Location) (root : Path) (names : List Bytes) : Prop where
  ordered : names.Pairwise (· < ·)
  complete : ∃ l, t.resolve here root = .ok l ∧ t.node? l = some .directory ∧
    ∀ n, n ∈ names ↔ t.node? (l ++ [n]) ≠ none ∧ t.isDirectory here (root.join n) = true

theorem Listed.unique {root : Path} {ns ns' : List Bytes} (h : t.Listed here root ns) (h' : t.Listed here root ns') :
    ns = ns' := by
  obtain ⟨l, hl, -, hmem⟩ := h.complete
  obtain ⟨l', hl', -, hmem'⟩ := h'.complete
  obtain rfl : l = l' := Except.ok.inj (hl.symm.trans hl')
  exact h.ordered.eq_of_mem_iff h'.ordered fun n => (hmem n).trans (hmem' n).symm

theorem subdirectories?_eq_some {root : Path} {dirs : List Path} (h : t.subdirectories? here root = some dirs) :
    ∃ names, dirs = names.map root.join ∧ t.Listed here root names := by
  rw [subdirectories?] at h
  cases hl : t.resolve here root with
  | error c =>
    rw [hl] at h
    cases h
  | ok l =>
    rw [hl] at h
    simp only at h
    by_cases hd : t.node? l = some .directory
    · rw [if_pos hd] at h
      refine ⟨(t.sortedNames l).filter fun n => t.isDirectory here (root.join n), ?_,
        (pairwise_sortedNames t l).filter _, l, hl, hd, fun n => ?_⟩
      · rw [← Option.some.inj h, List.filter_map]
        rfl
      · rw [List.mem_filter, sortedNames, List.mem_mergeSort, mem_names_iff]
    · rw [if_neg hd] at h
      cases h

/-- A directory of directories whose names are in order. -/
theorem subdirectories?_of_ordered {root : Path} (l : Location) (ns : List Bytes) (hl : t.resolve here root = .ok l)
    (hdir : t.node? l = some .directory) (hnames : t.names l = ns) (hordered : ns.Pairwise (· ≤ ·))
    (hchildren : ∀ n ∈ ns, t.isDirectory here (root.join n) = true) :
    t.subdirectories? here root = some (ns.map root.join) := by
  subst hnames
  rw [subdirectories?, hl]
  simp only [if_pos hdir, sortedNames_of_ordered hordered]
  rw [List.filter_eq_self.mpr (List.forall_mem_map.mpr hchildren)]

/-- A child's path is named after the child. -/
theorem nameOf_join {n : Bytes} (h : IsName n) (root : Path) : Package.nameOf (root.join n) = Text.decodeLossy n := by
  obtain ⟨hne, hhere, hup, hslash, -, -⟩ := h
  have hname : (root.join n).name? = some n := by
    rw [Path.name?, Path.pieces_join root hslash, List.filter_append, List.filter_singleton]
    simp [hne, hhere, hup]
  rw [Package.nameOf, hname]
  rfl

/-! ## (4) Files of one name -/

def wayDown (dir l : Location) : Option Location :=
  if dir.isPrefixOf l && dir.length < l.length then some (l.drop dir.length) else none

theorem wayDown_eq_some_iff {dir l ns : Location} : wayDown dir l = some ns ↔ ns ≠ [] ∧ l = dir ++ ns := by
  unfold wayDown
  constructor
  · intro h
    split at h
    · next hc =>
      rw [Bool.and_eq_true, List.isPrefixOf_iff_prefix, decide_eq_true_eq] at hc
      obtain ⟨⟨ms, rfl⟩, hlen⟩ := hc
      cases h
      rw [List.drop_left]
      refine ⟨?_, rfl⟩
      rintro rfl
      simp at hlen
    · cases h
  · rintro ⟨hne, rfl⟩
    have hlen : dir.length < (dir ++ ns).length := by
      have := List.length_pos_iff.mpr hne
      rw [List.length_append]
      omega
    rw [if_pos (by simpa using hlen), List.drop_left]

theorem mem_beneath_iff {dir ns : Location} {n : Node} :
    (ns, n) ∈ t.beneath dir ↔ ns ≠ [] ∧ t.node? (dir ++ ns) = some n := by
  have hway : ∀ e : Location × Node, (if dir.isPrefixOf e.1 && dir.length < e.1.length then
      some (e.1.drop dir.length, e.2) else none) = (wayDown dir e.1).map fun ns => (ns, e.2) := by
    intro e
    unfold wayDown
    split <;> rfl
  rw [beneath, List.mem_filterMap]
  simp only [hway, Option.map_eq_some_iff, wayDown_eq_some_iff, Prod.mk.injEq]
  constructor
  · rintro ⟨⟨l, m⟩, he, ms, ⟨hne, rfl⟩, rfl, rfl⟩
    exact ⟨hne, t.node?_eq_some_iff.mpr (Or.inr he)⟩
  · rintro ⟨hne, hn⟩
    rcases t.node?_eq_some_iff.mp hn with ⟨h0, -⟩ | hm
    · exact absurd (List.append_eq_nil_iff.mp h0).2 hne
    · exact ⟨(dir ++ ns, n), hm, ns, ⟨hne, rfl⟩, rfl, rfl⟩

theorem nodup_beneath (t : Tree) (dir : Location) : ((t.beneath dir).map Prod.fst).Nodup := by
  have heq : (t.beneath dir).map Prod.fst = (t.entries.map Prod.fst).filterMap (wayDown dir) := by
    rw [beneath, List.map_filterMap, List.filterMap_map]
    refine List.filterMap_congr fun e _ => ?_
    simp only [Function.comp_apply, wayDown]
    split <;> rfl
  rw [heq]
  refine t.wellFormed.nodup.filterMap fun l l' ns hl hl' => ?_
  rw [Option.mem_def, wayDown_eq_some_iff] at hl hl'
  rw [hl.2, hl'.2]

/-- The files of one name beneath the directory at a path, links to files included, in the
    order of the names on the way down. -/
def Discovered (t : Tree) (here : Location) (name : Bytes) (dir : Path) (paths : List Path) : Prop :=
  ∃ (l : Location) (found : List Location), t.resolve here dir = .ok l ∧ found.Pairwise (· < ·) ∧
    paths = found.map (pathFrom dir) ∧ ∀ ns : Location, ns ∈ found ↔ ns.getLast? = some name ∧
      ∃ n, t.node? (l ++ ns) = some n ∧ t.countsAsFile here (pathFrom dir ns) n = true

theorem Discovered.unique {name : Bytes} {dir : Path} {ps ps' : List Path} (h : t.Discovered here name dir ps)
    (h' : t.Discovered here name dir ps') : ps = ps' := by
  obtain ⟨l, found, hl, hsorted, rfl, hmem⟩ := h
  obtain ⟨l', found', hl', hsorted', rfl, hmem'⟩ := h'
  obtain rfl : l = l' := Except.ok.inj (hl.symm.trans hl')
  rw [hsorted.eq_of_mem_iff hsorted' fun ns => (hmem ns).trans (hmem' ns).symm]

theorem pairwise_sortedBeneath (t : Tree) (dir : Location) :
    ((t.sortedBeneath dir).map Prod.fst).Pairwise (· < ·) :=
  pairwise_sort Prod.fst (nodup_beneath t dir)

/-- A directory is not one of the files found at and beneath its path. -/
theorem isFile_of_isDirectory {p : Path} (h : t.isDirectory here p = true) : t.isFile here p = false := by
  rw [isDirectory, beq_iff_eq] at h
  rw [isFile, h]

/-- A walk from a directory fails at the first directory whose path is too long, else it finds
    the files of the name. -/
theorem findFiles_eq {dir : Path} {l : Location} (name : Bytes) (hdir : t.isDirectory here dir = true)
    (hl : t.resolve here dir = .ok l) : t.findFiles here dir name =
      match (t.sortedBeneath l).find? fun e => e.2 = .directory && pathLimit ≤ (pathFrom dir e.1).length with
      | some e => .error ⟨pathFrom dir e.1, .nameTooLong⟩
      | none => .ok (((t.sortedBeneath l).filter fun e =>
          e.1.getLast? == some name && t.countsAsFile here (pathFrom dir e.1) e.2).map fun e => pathFrom dir e.1) := by
  rw [findFiles, hl]
  simp only [isFile_of_isDirectory hdir, Bool.false_eq_true, and_false, if_false, List.nil_append, List.find?_map,
    List.filter_map, List.map_map]
  generalize hfirst : (t.sortedBeneath l).find? _ = first
  have hsame : (t.sortedBeneath l).find? (fun e => e.2 = .directory && pathLimit ≤ (pathFrom dir e.1).length) = first :=
    hfirst
  rw [hsame]
  cases first <;> rfl

/-- What the tree lists in the order of a walk is walked in that order. -/
theorem sortedBeneath_of_ordered {l : Location} (h : (t.beneath l).Pairwise fun a b => a.1 ≤ b.1) :
    t.sortedBeneath l = t.beneath l :=
  List.mergeSort_of_pairwise (h.imp decide_eq_true)

/-- A directory with nothing in it. -/
theorem findFiles_of_empty {dir : Path} (l : Location) (name : Bytes) (hdir : t.isDirectory here dir = true)
    (hl : t.resolve here dir = .ok l) (hbeneath : t.beneath l = []) : t.findFiles here dir name = .ok [] := by
  rw [findFiles_eq name hdir hl, sortedBeneath, hbeneath, List.mergeSort_nil]
  rfl

/-- One file in a directory. -/
theorem findFiles_of_single {dir : Path} (l : Location) {name content : Bytes} (hdir : t.isDirectory here dir = true)
    (hl : t.resolve here dir = .ok l) (hbeneath : t.beneath l = [([name], .file content)]) :
    t.findFiles here dir name = .ok [dir.join name] := by
  rw [findFiles_eq name hdir hl, sortedBeneath, hbeneath, List.mergeSort_singleton]
  simp [pathFrom, countsAsFile]

theorem findFiles_eq_ok {dir : Path} {name : Bytes} {paths : List Path} (hdir : t.isDirectory here dir = true)
    (h : t.findFiles here dir name = .ok paths) : t.Discovered here name dir paths := by
  cases hl : t.resolve here dir with
  | error c =>
    rw [findFiles, hl] at h
    cases h
  | ok l =>
    rw [findFiles_eq name hdir hl] at h
    split at h
    · cases h
    · let kept := (t.sortedBeneath l).filter fun e =>
        e.1.getLast? == some name && t.countsAsFile here (pathFrom dir e.1) e.2
      have hkept : ∀ ns n, (ns, n) ∈ kept ↔ (ns ≠ [] ∧ t.node? (l ++ ns) = some n) ∧
          ns.getLast? = some name ∧ t.countsAsFile here (pathFrom dir ns) n = true := by
        intro ns n
        rw [List.mem_filter, sortedBeneath, List.mem_mergeSort, mem_beneath_iff, Bool.and_eq_true, beq_iff_eq]
      refine ⟨l, kept.map Prod.fst, hl, (pairwise_sortedBeneath t l).sublist (List.filter_sublist.map _), ?_,
        fun ns => ?_⟩
      · rw [← Except.ok.inj h, List.map_map]
        rfl
      · rw [List.mem_map]
        constructor
        · rintro ⟨⟨ms, n⟩, he, rfl⟩
          obtain ⟨⟨-, hn⟩, hlast, hcount⟩ := (hkept ms n).mp he
          exact ⟨hlast, n, hn, hcount⟩
        · rintro ⟨hlast, n, hn, hcount⟩
          have hne : ns ≠ [] := by
            rintro rfl
            cases hlast
          exact ⟨(ns, n), (hkept ns n).mpr ⟨⟨hne, hn⟩, hlast, hcount⟩, rfl⟩

end Tree

end Attribution
