/-
  Attribution.Proofs.Walking — walking down from a directory.

  (1) What stands beneath a directory is what real directories lead down to
  (`descends_iff`), since what a node stands in is a directory (`directory_above`).

  (2) The nodes beneath a directory in the order of a walk are its children in the byte
  order of their names, each followed by what is beneath it (`sortedBeneath_eq`).

  (3) The path of a node shows the names that lead down to it, so no two nodes have one
  path (`pathFrom_injective`).

  (4) A walk ends well iff no directory that it goes down to has a path too long for the
  system. Then the files found are exactly those of the name that real directories lead
  down to, each once and in order; otherwise it fails at the first such directory
  (`findFiles_walk`). Such a directory need not be deep: slashes behind the path from
  which the walk starts are enough (`walk_fails_behind_slashes`).
-/
import Attribution.Proofs.Discovery
import Mathlib.Data.List.Induction

namespace Attribution

namespace Tree

variable {t : Tree} {here : Location}

/-! ## (1) Going down -/

/-- From a directory these names lead down to a node, through real directories only. -/
inductive Descends (t : Tree) : Location → List Bytes → Node → Prop
  | child {l : Location} {n : Bytes} {node : Node} :
      t.node? l = some .directory → t.node? (l ++ [n]) = some node → Descends t l [n] node
  | deeper {l : Location} {n : Bytes} {ns : List Bytes} {node : Node} :
      t.node? l = some .directory → Descends t (l ++ [n]) ns node → Descends t l (n :: ns) node

theorem directory_parent {l : Location} {n : Bytes} {node : Node} (h : t.node? (l ++ [n]) = some node) :
    t.node? l = some .directory := by
  rcases t.node?_eq_some_iff.mp h with ⟨h0, -⟩ | hm
  · simp at h0
  · have hparent := t.wellFormed.parent _ hm
    rwa [List.dropLast_concat] at hparent

theorem directory_above {l : Location} {n : Bytes} {ns : List Bytes} {node : Node}
    (h : t.node? (l ++ n :: ns) = some node) : t.node? l = some .directory := by
  induction ns using List.reverseRecOn generalizing node with
  | nil => exact directory_parent h
  | append_singleton ns m ih =>
    have h' : t.node? ((l ++ n :: ns) ++ [m]) = some node := by simpa using h
    exact ih (directory_parent h')

/-- What stands beneath a location is what real directories lead down to. -/
theorem descends_iff {l : Location} {ns : List Bytes} {node : Node} :
    t.Descends l ns node ↔ ns ≠ [] ∧ t.node? (l ++ ns) = some node := by
  constructor
  · intro h
    induction h with
    | child _ hn => exact ⟨by simp, hn⟩
    | deeper _ _ ih => exact ⟨by simp, by simpa using ih.2⟩
  · rintro ⟨hne, h⟩
    induction ns generalizing l with
    | nil => exact absurd rfl hne
    | cons n ns ih =>
      cases ns with
      | nil => exact .child (directory_above h) h
      | cons m ns => exact .deeper (directory_above h) (ih (by simp) (by simpa using h))

theorem mem_sortedBeneath_iff {l : Location} {ns : List Bytes} {node : Node} :
    (ns, node) ∈ t.sortedBeneath l ↔ t.Descends l ns node := by
  rw [sortedBeneath, List.mem_mergeSort, mem_beneath_iff, descends_iff]

/-! ## (2) The order of a walk -/

/-- A child of a directory and what is beneath it. -/
def visit (t : Tree) (dir : Location) (n : Bytes) : List (Location × Node) :=
  (t.node? (dir ++ [n])).toList.map (fun node => ([n], node)) ++
    (t.sortedBeneath (dir ++ [n])).map fun e => (n :: e.1, e.2)

theorem mem_visit_iff {dir : Location} {n : Bytes} {ns : List Bytes} {node : Node} :
    (ns, node) ∈ t.visit dir n ↔ ∃ ms, ns = n :: ms ∧ t.node? (dir ++ ns) = some node := by
  simp only [visit, List.mem_append, List.mem_map, Option.mem_toList, Prod.mk.injEq]
  constructor
  · rintro (⟨node', h, rfl, rfl⟩ | ⟨⟨ms, node'⟩, h, rfl, rfl⟩)
    · exact ⟨[], rfl, h⟩
    · exact ⟨ms, rfl, by simpa using (descends_iff.mp (mem_sortedBeneath_iff.mp h)).2⟩
  · rintro ⟨ms, rfl, h⟩
    cases ms with
    | nil => exact Or.inl ⟨node, h, rfl, rfl⟩
    | cons m ms =>
      exact Or.inr ⟨(m :: ms, node), mem_sortedBeneath_iff.mpr (descends_iff.mpr ⟨by simp, by simpa using h⟩), rfl, rfl⟩

theorem pairwise_visit (t : Tree) (dir : Location) (n : Bytes) :
    (t.visit dir n).Pairwise fun a b => a.1 < b.1 := by
  refine List.pairwise_append.mpr ⟨?_, ?_, ?_⟩
  · cases t.node? (dir ++ [n]) <;> simp
  · refine List.pairwise_map.mpr ((List.pairwise_map.mp (pairwise_sortedBeneath t (dir ++ [n]))).imp ?_)
    intro a b hab
    exact List.cons_lt_cons_iff.mpr (Or.inr ⟨rfl, hab⟩)
  · intro a ha b hb
    obtain ⟨node, -, rfl⟩ := List.mem_map.mp ha
    obtain ⟨⟨ms, node'⟩, hms, rfl⟩ := List.mem_map.mp hb
    obtain ⟨m, ms, rfl⟩ := List.exists_cons_of_ne_nil (descends_iff.mp (mem_sortedBeneath_iff.mp hms)).1
    exact List.cons_lt_cons_iff.mpr (Or.inr ⟨rfl, List.nil_lt_cons _ _⟩)

/-- A walk visits the children of a directory in the byte order of their names, each
    followed by what is beneath it. -/
theorem sortedBeneath_eq (t : Tree) (dir : Location) :
    t.sortedBeneath dir = (t.sortedNames dir).flatMap (t.visit dir) := by
  have : Std.Irrefl fun a b : Location × Node => a.1 < b.1 := ⟨fun a => List.lt_irrefl a.1⟩
  refine (List.pairwise_map.mp (pairwise_sortedBeneath t dir)).eq_of_mem_iff (List.pairwise_flatMap.mpr ⟨?_, ?_⟩) ?_
  · exact fun n _ => pairwise_visit t dir n
  · refine (pairwise_sortedNames t dir).imp fun {n m} hnm a ha b hb => ?_
    obtain ⟨ns, hns, -⟩ := mem_visit_iff.mp ha
    obtain ⟨ms, hms, -⟩ := mem_visit_iff.mp hb
    rw [hns, hms]
    exact List.cons_lt_cons_iff.mpr (Or.inl hnm)
  · rintro ⟨ns, node⟩
    simp only [mem_sortedBeneath_iff, descends_iff, List.mem_flatMap, mem_visit_iff, sortedNames,
      List.mem_mergeSort, mem_names_iff]
    constructor
    · rintro ⟨hne, h⟩
      obtain ⟨n, ms, rfl⟩ := List.exists_cons_of_ne_nil hne
      refine ⟨n, ?_, ms, rfl, h⟩
      cases ms with
      | nil => simp [h]
      | cons m ms =>
        have h' : t.node? ((dir ++ [n]) ++ m :: ms) = some node := by simpa using h
        simp [directory_above h']
    · rintro ⟨n, -, ms, rfl, h⟩
      exact ⟨by simp, h⟩

/-! ## (3) The paths of the nodes -/

theorem isName_of_mem {l : Location} {ns : List Bytes} {node : Node} (h : t.node? (l ++ ns) = some node) :
    ∀ n ∈ ns, IsName n := by
  intro n hn
  rcases t.node?_eq_some_iff.mp h with ⟨h0, -⟩ | hm
  · rw [(List.append_eq_nil_iff.mp h0).2] at hn
    cases hn
  · exact (t.wellFormed.named _ hm).2 n (List.mem_append_right _ hn)

theorem Descends.isName {l : Location} {ns : List Bytes} {node : Node} (h : t.Descends l ns node) :
    ∀ n ∈ ns, IsName n :=
  isName_of_mem (descends_iff.mp h).2

theorem stem_join (root : Path) {n : Bytes} (h : IsName n) :
    Path.stem (root.join n) = Path.stem root ++ [n] := by
  obtain ⟨hne, -, -, hslash, -, -⟩ := h
  have hjoin := Path.join_of_not_isAbsolute (Path.isAbsolute_of_no_slash hslash) root
  have hlast : (root.join n).getLast? = n.getLast? := by
    rw [hjoin, List.getLast?_append_of_ne_nil _ hne]
  rw [Path.stem, if_neg, if_neg, Path.pieces_join root hslash]
  · rw [hlast]
    exact fun hl => hslash (List.mem_of_getLast? hl)
  · rw [hjoin]
    simp [hne]

theorem stem_pathFrom (root : Path) {ns : List Bytes} (h : ∀ n ∈ ns, IsName n) :
    Path.stem (pathFrom root ns) = Path.stem root ++ ns := by
  induction ns generalizing root with
  | nil => simp [pathFrom]
  | cons n ns ih =>
    obtain ⟨hn, h⟩ := List.forall_mem_cons.mp h
    have hcons : pathFrom root (n :: ns) = pathFrom (root.join n) ns := rfl
    rw [hcons, ih _ h, stem_join root hn, List.append_assoc, List.singleton_append]

/-- The path of a node shows the names that lead down to it. -/
theorem pathFrom_injective {root : Path} {ns ms : List Bytes} (hns : ∀ n ∈ ns, IsName n) (hms : ∀ n ∈ ms, IsName n)
    (h : pathFrom root ns = pathFrom root ms) : ns = ms := by
  have hstem := congrArg Path.stem h
  rw [stem_pathFrom root hns, stem_pathFrom root hms] at hstem
  exact List.append_cancel_left hstem

theorem pathFrom_concat (root : Path) (ns : List Bytes) (n : Bytes) :
    pathFrom root (ns ++ [n]) = (pathFrom root ns).join n := by
  rw [pathFrom, List.foldl_append]
  rfl

/-! ## (4) The files found -/

/-- A directory that is met on the way down from a path and cannot be opened: its path is too
    long. -/
structure OutOfReach (t : Tree) (l : Location) (dir : Path) (ns : List Bytes) : Prop where
  directory : t.Descends l ns .directory
  tooLong : pathLimit ≤ (pathFrom dir ns).length

def IsFileAt (t : Tree) (here : Location) (p : Path) (node : Node) : Prop :=
  (∃ content, node = .file content) ∨
    (∃ target, node = .link target) ∧ ∃ l content, t.resolve here p = .ok l ∧ t.node? l = some (.file content)

structure LeadToFiles (t : Tree) (here : Location) (dir : Path) (l : Location) (name : Bytes)
    (ways : List (List Bytes)) : Prop where
  ordered : ways.Pairwise (· < ·)
  exact : ∀ ns, ns ∈ ways ↔
    ns.getLast? = some name ∧ ∃ node, t.Descends l ns node ∧ t.IsFileAt here (pathFrom dir ns) node

theorem isFile_iff {p : Path} :
    t.isFile here p = true ↔ ∃ l content, t.resolve here p = .ok l ∧ t.node? l = some (.file content) := by
  rw [isFile, target?]
  cases t.resolve here p with
  | error c => simp
  | ok l => rcases hn : t.node? l with _ | (_ | content | target) <;> simp [hn]

theorem countsAsFile_iff {p : Path} {node : Node} : t.countsAsFile here p node = true ↔ t.IsFileAt here p node := by
  cases node with
  | directory => simp [countsAsFile, IsFileAt]
  | file content => simp [countsAsFile, IsFileAt]
  | link target => simp [countsAsFile, IsFileAt, isFile_iff]

theorem LeadToFiles.nodup {dir : Path} {l : Location} {name : Bytes} {ways : List (List Bytes)}
    (h : t.LeadToFiles here dir l name ways) : (ways.map (pathFrom dir)).Nodup := by
  have hways : ways.Nodup := by
    refine h.ordered.imp fun {ns ms} hlt heq => ?_
    subst heq
    exact List.lt_irrefl ns hlt
  refine hways.map_on fun ns hns ms hms heq => ?_
  obtain ⟨-, _, hns, -⟩ := (h.exact ns).mp hns
  obtain ⟨-, _, hms, -⟩ := (h.exact ms).mp hms
  exact pathFrom_injective hns.isName hms.isName heq

theorem Discovered.leadToFiles {dir : Path} {name : Bytes} {paths : List Path} {l : Location}
    (hl : t.resolve here dir = .ok l) (h : t.Discovered here name dir paths) :
    ∃ ways, t.LeadToFiles here dir l name ways ∧ paths = ways.map (pathFrom dir) := by
  obtain ⟨l', ways, hl', hordered, rfl, hmem⟩ := h
  obtain rfl : l = l' := Except.ok.inj (hl.symm.trans hl')
  refine ⟨ways, ⟨hordered, fun ns => ?_⟩, rfl⟩
  rw [hmem]
  refine and_congr_right fun hlast => exists_congr fun node => and_congr ?_ countsAsFile_iff
  have hne : ns ≠ [] := by
    rintro rfl
    cases hlast
  rw [descends_iff]
  exact (and_iff_right hne).symm

/-- The directory that a walk fails at is the first one out of reach. -/
theorem first_outOfReach {dir : Path} {l : Location} {e : Location × Node}
    (h : (t.sortedBeneath l).find? (fun e => e.2 = .directory && pathLimit ≤ (pathFrom dir e.1).length) = some e) :
    t.OutOfReach l dir e.1 ∧ ∀ ns, t.OutOfReach l dir ns → ns = e.1 ∨ e.1 < ns := by
  obtain ⟨ms, node⟩ := e
  obtain ⟨hp, before, after, hsplit, hbefore⟩ := List.find?_eq_some_iff_append.mp h
  rw [Bool.and_eq_true, decide_eq_true_eq, decide_eq_true_eq] at hp
  obtain ⟨rfl, hlong⟩ := hp
  have hmem : (ms, Node.directory) ∈ t.sortedBeneath l := by simp [hsplit]
  refine ⟨⟨mem_sortedBeneath_iff.mp hmem, hlong⟩, fun ns hns => ?_⟩
  have hns' := mem_sortedBeneath_iff.mpr hns.directory
  rw [hsplit, List.mem_append, List.mem_cons] at hns'
  have hordered := List.pairwise_map.mp (pairwise_sortedBeneath t l)
  rw [hsplit, List.pairwise_append, List.pairwise_cons] at hordered
  rcases hns' with hm | hm | hm
  · have := hbefore _ hm
    simp [hns.tooLong] at this
  · exact Or.inl (congrArg Prod.fst hm)
  · exact Or.inr (hordered.2.1.1 _ hm)

theorem exists_resolve_of_isDirectory {dir : Path} (hdir : t.isDirectory here dir = true) :
    ∃ l, t.resolve here dir = .ok l := by
  rw [isDirectory, target?] at hdir
  cases hl : t.resolve here dir with
  | error c => simp [hl] at hdir
  | ok l => exact ⟨l, rfl⟩

theorem findFiles_eq_ok_of_reach {dir : Path} {l : Location} (name : Bytes) (hdir : t.isDirectory here dir = true)
    (hl : t.resolve here dir = .ok l) (hreach : ∀ ns, ¬ t.OutOfReach l dir ns) :
    ∃ ways, t.LeadToFiles here dir l name ways ∧ t.findFiles here dir name = .ok (ways.map (pathFrom dir)) := by
  have hfirst : (t.sortedBeneath l).find?
      (fun e => e.2 = .directory && pathLimit ≤ (pathFrom dir e.1).length) = none := by
    refine List.find?_eq_none.mpr fun e he hp => ?_
    obtain ⟨ns, node⟩ := e
    rw [Bool.and_eq_true, decide_eq_true_eq, decide_eq_true_eq] at hp
    obtain ⟨rfl, hlong⟩ := hp
    exact hreach ns ⟨mem_sortedBeneath_iff.mp he, hlong⟩
  have hok := findFiles_eq name hdir hl
  rw [hfirst] at hok
  obtain ⟨ways, hways, hpaths⟩ := (findFiles_eq_ok hdir hok).leadToFiles hl
  exact ⟨ways, hways, hok.trans (congrArg _ hpaths)⟩

theorem findFiles_eq_error {dir : Path} {l : Location} {ms : List Bytes} (name : Bytes)
    (hdir : t.isDirectory here dir = true) (hl : t.resolve here dir = .ok l) (hout : t.OutOfReach l dir ms) :
    ∃ ns, t.findFiles here dir name = .error ⟨pathFrom dir ns, .nameTooLong⟩ ∧ t.OutOfReach l dir ns ∧
      ∀ ms, t.OutOfReach l dir ms → ms = ns ∨ ns < ms := by
  rw [findFiles_eq name hdir hl]
  split
  · next e hfirst => exact ⟨e.1, rfl, first_outOfReach hfirst⟩
  · next hnone =>
    have := List.find?_eq_none.mp hnone _ (mem_sortedBeneath_iff.mpr hout.directory)
    simp [hout.tooLong] at this

/-- A walk from a directory fails iff a directory that it goes down to is out of reach, and
    then at the first one. Else it finds exactly the files of the name that real directories
    lead down to, links to files included, each once and in the order of the names on the
    way down. -/
theorem findFiles_walk (t : Tree) (here : Location) (dir : Path) (name : Bytes)
    (hdir : t.isDirectory here dir = true) : ∃ l, t.resolve here dir = .ok l ∧
      match t.findFiles here dir name with
      | .ok paths => (∀ ns, ¬ t.OutOfReach l dir ns) ∧ paths.Nodup ∧
          ∃ ways, t.LeadToFiles here dir l name ways ∧ paths = ways.map (pathFrom dir)
      | .error w => ∃ ns, w = ⟨pathFrom dir ns, .nameTooLong⟩ ∧ t.OutOfReach l dir ns ∧
          ∀ ms, t.OutOfReach l dir ms → ms = ns ∨ ns < ms := by
  obtain ⟨l, hl⟩ := exists_resolve_of_isDirectory hdir
  refine ⟨l, hl, ?_⟩
  by_cases hreach : ∀ ns, ¬ t.OutOfReach l dir ns
  · obtain ⟨ways, hways, hok⟩ := findFiles_eq_ok_of_reach name hdir hl hreach
    rw [hok]
    exact ⟨hreach, hways.nodup, ways, hways, rfl⟩
  · obtain ⟨ms, hout⟩ := not_forall_not.mp hreach
    obtain ⟨ns, herror, hfirst⟩ := findFiles_eq_error name hdir hl hout
    rw [herror]
    exact ⟨ns, rfl, hfirst⟩

open Attribution.Path (ofString)

/-- A package behind a link, with one license in a directory and one behind a link. -/
def shelf : Tree where
  entries := [([ofString "zlib"], .directory), ([ofString "package"], .link (ofString "zlib")),
    ([ofString "zlib", ofString "share"], .directory),
    ([ofString "zlib", ofString "share", ofString "copyright"], .file (ofString "theirs")),
    ([ofString "zlib", ofString "copyright"], .link (ofString "share/copyright"))]
  wellFormed := ⟨by decide, by decide, by decide, by decide⟩

theorem findFiles_walk_shelf : shelf.isDirectory [] (ofString "package") = true ∧
    ∃ l, shelf.resolve [] (ofString "package") = .ok l ∧
      match shelf.findFiles [] (ofString "package") (ofString "copyright") with
      | .ok paths => (∀ ns, ¬ shelf.OutOfReach l (ofString "package") ns) ∧ paths.Nodup ∧
          ∃ ways, shelf.LeadToFiles [] (ofString "package") l (ofString "copyright") ways ∧
            paths = ways.map (pathFrom (ofString "package"))
      | .error w => ∃ ns, w = ⟨pathFrom (ofString "package") ns, .nameTooLong⟩ ∧
          shelf.OutOfReach l (ofString "package") ns ∧
          ∀ ms, shelf.OutOfReach l (ofString "package") ms → ms = ns ∨ ns < ms :=
  ⟨rfl, findFiles_walk shelf [] (ofString "package") (ofString "copyright") rfl⟩

/-! ### A walk that fails -/

theorem pieces_replicate_slash (k : Nat) : Path.pieces (List.replicate k Path.slash) = List.replicate (k + 1) [] := by
  induction k with
  | zero => rfl
  | succ k ih =>
    rw [List.replicate_succ, Path.pieces, if_pos (by rfl), ih, ← List.replicate_succ]

theorem steps_replicate_slash {n : Bytes} (hslash : Path.slash ∉ n) (hne : n ≠ []) (k : Nat) :
    Path.steps (n ++ List.replicate (k + 1) Path.slash) = [n, []] := by
  have hpieces : Path.pieces (n ++ List.replicate (k + 1) Path.slash) = n :: List.replicate (k + 1) [] := by
    rw [List.replicate_succ, Path.pieces_append_slash, Path.pieces_of_no_slash hslash, pieces_replicate_slash]
    rfl
  rw [Path.steps, hpieces, List.dropLast_cons_of_ne_nil (by simp), List.dropLast_replicate, List.getLast?_cons]
  simp [hne, List.getLast?_replicate]

def nested : Tree where
  entries := [([ofString "a"], .directory), ([ofString "a", ofString "b"], .directory)]
  wellFormed := ⟨by decide, by decide, by decide, by decide⟩

/-- The outer directory, named by the longest path that the system takes. -/
def longest : Path := ofString "a" ++ List.replicate 4094 Path.slash

theorem length_longest : longest.length = 4095 := by
  rw [longest, List.length_append, List.length_replicate]
  rfl

theorem resolve_longest : nested.resolve [] longest = .ok [ofString "a"] := by
  have hnul : 0 ∉ longest := by
    rw [longest, List.mem_append, List.mem_replicate]
    decide
  have hne : longest ≠ [] := List.ne_nil_of_length_pos (by rw [length_longest]; omega)
  have hsteps : longest.steps = [ofString "a", []] := steps_replicate_slash (by decide) (by decide) 4093
  have hstart : longest.start [] = [] := by rw [Path.start]; split <;> rfl
  rw [resolve, spot, if_neg hnul, if_neg hne, if_neg (by rw [length_longest]; decide), hsteps, hstart]
  rfl

/-- A directory in a directory can be out of reach for a walk that starts in the outer one. -/
theorem walk_fails_behind_slashes : nested.isDirectory [] longest = true ∧
    ¬ ∃ paths, nested.findFiles [] longest (ofString "copyright") = .ok paths := by
  have hdir : nested.isDirectory [] longest = true := by
    rw [isDirectory, target?, resolve_longest]
    rfl
  refine ⟨hdir, ?_⟩
  rintro ⟨paths, h⟩
  have hdown : nested.Descends [ofString "a"] [ofString "b"] .directory := .child rfl rfl
  have hlong : pathLimit ≤ (pathFrom longest [ofString "b"]).length := by
    have hjoin := Path.join_of_not_isAbsolute (p := ofString "b") (by decide) longest
    rw [pathFrom, List.foldl_cons, List.foldl_nil, hjoin, List.length_append, List.length_append, length_longest]
    have : 1 ≤ (ofString "b").length := by decide
    simp only [pathLimit]
    omega
  obtain ⟨ns, herror, -⟩ := findFiles_eq_error (ofString "copyright") hdir resolve_longest ⟨hdown, hlong⟩
  rw [herror] at h
  cases h

end Tree

end Attribution
