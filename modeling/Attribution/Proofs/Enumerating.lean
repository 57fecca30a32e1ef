/-
  Attribution.Proofs.Enumerating — the order in which the system enumerates directories.

  (1) An enumeration puts the names in each directory in some order, each directory by
  itself. A tree can be listed by any enumeration (`listedBy`): it keeps its nodes
  (`node?_listedBy`), and the names in each directory come as the enumeration has them
  (`names_listedBy`).

  (2) Following a path asks for single nodes only (`resolve_congr`). What asks for all
  names in a directory, or for all nodes beneath it, sorts them; that leaves one order,
  since nothing stands there twice (`sortedNames_congr`, `sortedBeneath_congr`).

  (3) So two trees with the same nodes have the same package directories and the same
  files in them, and gathering takes the same steps in both, up to the same failure
  (`enumeration_irrelevant`).
-/
import Attribution.Gathering
import Attribution.Proofs.Leading
import Attribution.Proofs.Walking

namespace Attribution

namespace Tree

/-! ## (1) Enumerations -/

structure Enumeration (t : Tree) where
  names : Location → List Bytes
  perm : ∀ dir, (names dir).Perm (t.names dir)

def directories (t : Tree) : List Location := [] :: (t.entries.filter (·.2 = .directory)).map Prod.fst

def entryAt (t : Tree) (l : Location) : Option (Location × Node) := (t.node? l).map (l, ·)

namespace Enumeration

/-- The locations of a tree as an enumeration comes to them, one directory after the other. -/
def locations {t : Tree} (e : t.Enumeration) : List Location :=
  t.directories.flatMap fun dir => (e.names dir).map (dir ++ [·])

def entries {t : Tree} (e : t.Enumeration) : Entries := e.locations.filterMap t.entryAt

end Enumeration

section Listing

variable {t : Tree} (e : t.Enumeration)

theorem mem_directories_iff {dir : Location} : dir ∈ t.directories ↔ t.node? dir = some .directory := by
  rw [node?_eq_some_iff, directories]
  simp

theorem nodup_directories (t : Tree) : t.directories.Nodup := by
  apply List.nodup_cons.mpr
  refine ⟨?_, t.wellFormed.nodup.sublist (List.filter_sublist.map _)⟩
  intro h
  obtain ⟨x, hx, hnil⟩ := List.mem_map.mp h
  exact (t.wellFormed.named x (List.mem_filter.mp hx).1).1 hnil

theorem mem_entries_iff {l : Location} {n : Node} : (l, n) ∈ t.entries ↔ l ≠ [] ∧ t.node? l = some n := by
  rw [node?_eq_some_iff]
  constructor
  · intro h
    exact ⟨(t.wellFormed.named _ h).1, Or.inr h⟩
  · intro ⟨hl, h⟩
    exact h.resolve_left fun h => hl h.1

namespace Enumeration

theorem mem_names_iff {dir : Location} {n : Bytes} : n ∈ e.names dir ↔ t.node? (dir ++ [n]) ≠ none :=
  (e.perm dir).mem_iff.trans Tree.mem_names_iff

theorem names_eq_nil {dir : Location} (h : dir ∉ t.directories) : e.names dir = [] := by
  apply List.eq_nil_iff_forall_not_mem.mpr
  intro n hn
  obtain ⟨node, hnode⟩ := Option.ne_none_iff_exists'.mp (e.mem_names_iff.mp hn)
  exact h (mem_directories_iff.mpr (directory_parent hnode))

theorem mem_locations_iff {l : Location} : l ∈ e.locations ↔ l ≠ [] ∧ t.node? l ≠ none := by
  unfold locations
  rw [List.mem_flatMap]
  constructor
  · intro ⟨dir, _, h⟩
    obtain ⟨n, hn, rfl⟩ := List.mem_map.mp h
    exact ⟨by simp, e.mem_names_iff.mp hn⟩
  · intro ⟨hl, h⟩
    obtain ⟨dir, n, rfl⟩ : ∃ dir n, l = dir ++ [n] := ⟨_, _, (List.dropLast_append_getLast hl).symm⟩
    obtain ⟨node, hnode⟩ := Option.ne_none_iff_exists'.mp h
    exact ⟨dir, mem_directories_iff.mpr (directory_parent hnode), List.mem_map.mpr ⟨n, e.mem_names_iff.mpr h, rfl⟩⟩

theorem nodup_locations : e.locations.Nodup := by
  apply List.nodup_flatMap.mpr
  constructor
  · intro dir _
    apply ((e.perm dir).nodup_iff.mpr (nodup_names t dir)).map
    intro n m h
    exact (List.append_inj_right' h rfl |> List.cons.inj).1
  · apply (nodup_directories t).imp
    intro dir dir' hne l h h'
    obtain ⟨n, -, rfl⟩ := List.mem_map.mp h
    obtain ⟨m, -, hm⟩ := List.mem_map.mp h'
    exact hne (List.append_inj_left' hm rfl).symm

theorem mem_entries_iff {l : Location} {n : Node} : (l, n) ∈ e.entries ↔ (l, n) ∈ t.entries := by
  rw [Tree.mem_entries_iff, entries, List.mem_filterMap]
  simp only [entryAt, Option.map_eq_some_iff, Prod.mk.injEq, e.mem_locations_iff]
  constructor
  · rintro ⟨k, ⟨hk, -⟩, m, hm, rfl, rfl⟩
    exact ⟨hk, hm⟩
  · intro ⟨hl, hn⟩
    exact ⟨l, ⟨hl, by simp [hn]⟩, n, hn, rfl, rfl⟩

theorem map_fst_entries : e.entries.map Prod.fst = e.locations := by
  have hall : ∀ l ∈ e.locations, t.node? l ≠ none := fun l hl => (e.mem_locations_iff.mp hl).2
  unfold entries
  generalize e.locations = ls at hall
  induction ls with
  | nil => rfl
  | cons l ls ih =>
    obtain ⟨hl, hall⟩ := List.forall_mem_cons.mp hall
    obtain ⟨n, hn⟩ := Option.ne_none_iff_exists'.mp hl
    rw [List.filterMap_cons_some (b := (l, n)) (by rw [entryAt, hn]; rfl), List.map_cons, ih hall]

theorem wellFormed_entries : WellFormed e.entries := by
  have hnodup : (e.entries.map Prod.fst).Nodup := by
    rw [e.map_fst_entries]
    exact e.nodup_locations
  refine ⟨hnodup, ?named, ?sound, ?parent⟩
  case named =>
    intro x hx
    exact t.wellFormed.named x (e.mem_entries_iff.mp hx)
  case sound =>
    intro x hx
    exact t.wellFormed.sound x (e.mem_entries_iff.mp hx)
  case parent =>
    intro x hx
    have hparent : t.node? x.1.dropLast = some .directory := t.wellFormed.parent x (e.mem_entries_iff.mp hx)
    unfold Entries.node?
    split
    · rfl
    · next hne =>
      rw [lookup_eq_some_iff_mem hnodup, e.mem_entries_iff]
      exact Tree.mem_entries_iff.mpr ⟨hne, hparent⟩

end Enumeration

/-- The tree as it is when the system enumerates its directories like this. -/
def listedBy (t : Tree) (e : t.Enumeration) : Tree := ⟨e.entries, e.wellFormed_entries⟩

theorem node?_listedBy (l : Location) : (t.listedBy e).node? l = t.node? l := by
  apply Option.ext
  intro n
  have hmem : (l, n) ∈ (t.listedBy e).entries ↔ (l, n) ∈ t.entries := e.mem_entries_iff
  rw [node?_eq_some_iff, node?_eq_some_iff, hmem]

theorem flatMap_single {α β : Type} [DecidableEq α] {xs : List α} (h : xs.Nodup) (x : α) (f : α → List β) :
    (xs.flatMap fun a => if a = x then f a else []) = if x ∈ xs then f x else [] := by
  induction xs with
  | nil => rfl
  | cons a xs ih =>
    obtain ⟨ha, hxs⟩ := List.nodup_cons.mp h
    rw [List.flatMap_cons, ih hxs]
    by_cases hax : a = x
    · subst hax
      simp [ha]
    · simp [hax, Ne.symm hax]

theorem names_listedBy (dir : Location) : (t.listedBy e).names dir = e.names dir := by
  have hone : ∀ d, ((e.names d).map (d ++ [·])).filterMap (nameIn dir) = if d = dir then e.names d else [] := by
    intro d
    rw [List.filterMap_map]
    by_cases hd : d = dir
    · rw [if_pos hd]
      refine (List.filterMap_congr fun n _ => ?_).trans List.filterMap_some
      exact nameIn_eq_some_iff.mpr (by rw [hd])
    · rw [if_neg hd]
      apply List.filterMap_eq_nil_iff.mpr
      intro n _
      rw [Function.comp_apply, nameIn, List.dropLast_concat, if_neg hd]
  rw [names_eq, show (t.listedBy e).entries.map Prod.fst = e.locations from e.map_fst_entries, Enumeration.locations,
    List.filterMap_flatMap]
  simp only [hone]
  rw [flatMap_single (nodup_directories t)]
  split
  · rfl
  · next hdir => exact (e.names_eq_nil hdir).symm

end Listing

/-! ## (2) Trees with the same nodes -/

section Same

variable {t t' : Tree} (h : ∀ l, t.node? l = t'.node? l)

include h

theorem resolve_congr (here : Location) (p : Path) : t.resolve here p = t'.resolve here p :=
  (resolve_alike (.of_node?_eq h) here p).symm

theorem target?_congr (here : Location) (p : Path) : t.target? here p = t'.target? here p := by
  unfold target?
  simp only [resolve_congr h, h]

theorem isDirectory_congr (here : Location) (p : Path) : t.isDirectory here p = t'.isDirectory here p := by
  unfold isDirectory
  rw [target?_congr h]

theorem isFile_congr (here : Location) (p : Path) : t.isFile here p = t'.isFile here p := by
  unfold isFile
  rw [target?_congr h]

theorem readLicense_congr (here : Location) (p : Path) : t.readLicense here p = t'.readLicense here p := by
  unfold readLicense readText readBytes
  simp only [resolve_congr h, h]

theorem sortedNames_congr (dir : Location) : t.sortedNames dir = t'.sortedNames dir := by
  apply (pairwise_sortedNames t dir).eq_of_mem_iff (pairwise_sortedNames t' dir)
  intro n
  rw [sortedNames, sortedNames, List.mem_mergeSort, List.mem_mergeSort, mem_names_iff, mem_names_iff, h]

theorem sortedBeneath_congr (dir : Location) : t.sortedBeneath dir = t'.sortedBeneath dir := by
  have : Std.Irrefl fun a b : Location × Node => a.1 < b.1 := ⟨fun a => List.lt_irrefl a.1⟩
  have hsorted := List.pairwise_map.mp (pairwise_sortedBeneath t dir)
  apply hsorted.eq_of_mem_iff (List.pairwise_map.mp (pairwise_sortedBeneath t' dir))
  intro ⟨ns, n⟩
  rw [mem_sortedBeneath_iff, mem_sortedBeneath_iff, descends_iff, descends_iff, h]

/-! ## (3) Gathering -/

theorem subdirectories?_congr (here : Location) (root : Path) :
    t.subdirectories? here root = t'.subdirectories? here root := by
  have hdir : t.isDirectory here = t'.isDirectory here := funext (isDirectory_congr h here)
  unfold subdirectories?
  simp only [resolve_congr h, sortedNames_congr h, hdir, h]

theorem findFiles_congr (here : Location) (root : Path) (name : Bytes) :
    t.findFiles here root name = t'.findFiles here root name := by
  have hcounts : t.countsAsFile here = t'.countsAsFile here := by
    funext p n
    cases n with
    | directory => rfl
    | file content => rfl
    | link target => exact isFile_congr h here p
  unfold findFiles
  simp only [resolve_congr h, sortedBeneath_congr h, isFile_congr h, hcounts]

theorem readLicenses_congr (here : Location) (ps : List Path) : t.readLicenses here ps = t'.readLicenses here ps := by
  induction ps with
  | nil => rfl
  | cons p ps ih => rw [readLicenses, readLicenses, readLicense_congr h, ih]

theorem readPackage_congr (here : Location) (name : Text) (dir : Path) :
    t.readPackage here name dir = t'.readPackage here name dir := by
  unfold readPackage
  simp only [findFiles_congr h, readLicenses_congr h]

theorem gatherSublicenses_congr (here : Location) (ss : List Sublicense) (g : Gathering) :
    t.gatherSublicenses here ss g = t'.gatherSublicenses here ss g := by
  induction ss generalizing g with
  | nil => rfl
  | cons s ss ih => simp only [gatherSublicenses, readLicense_congr h, ih]

theorem gatherPackages_congr (here : Location) (name : Text) (dirs : List Path) (g : Gathering) :
    t.gatherPackages here name dirs g = t'.gatherPackages here name dirs g := by
  induction dirs generalizing g with
  | nil => rfl
  | cons dir dirs ih => simp only [gatherPackages, readPackage_congr h, ih]

theorem gather_congr (here : Location) (o : Order) (bar : Progress) :
    t.gather here o bar = t'.gather here o bar := by
  unfold gather
  simp only [readLicense_congr h, gatherSublicenses_congr h, subdirectories?_congr h, gatherPackages_congr h]

end Same

/-- In whichever order the system enumerates each directory, the package directories are the
    same, so are the files found beneath a path or the failure of the walk, and so is all
    that is gathered, with the failure if there is one. -/
theorem enumeration_irrelevant (t : Tree) (here : Location) (e e' : t.Enumeration) :
    (∀ l, (t.listedBy e).node? l = t.node? l ∧ (t.listedBy e').node? l = t.node? l) ∧
      (∀ dir, (t.listedBy e).names dir = e.names dir ∧ (t.listedBy e').names dir = e'.names dir) ∧
      (∀ root, (t.listedBy e).subdirectories? here root = (t.listedBy e').subdirectories? here root) ∧
      (∀ dir name, (t.listedBy e).findFiles here dir name = (t.listedBy e').findFiles here dir name) ∧
      ∀ o bar, (t.listedBy e).gather here o bar = (t.listedBy e').gather here o bar := by
  have hsame : ∀ l, (t.listedBy e).node? l = (t.listedBy e').node? l := by
    intro l
    rw [node?_listedBy, node?_listedBy]
  refine ⟨fun l => ⟨node?_listedBy e l, node?_listedBy e' l⟩,
    fun dir => ⟨names_listedBy e dir, names_listedBy e' dir⟩, ?_, ?_, ?_⟩
  · intro root
    exact subdirectories?_congr hsame here root
  · intro dir name
    exact findFiles_congr hsame here dir name
  · intro o bar
    exact gather_congr hsame here o bar

end Tree

end Attribution
