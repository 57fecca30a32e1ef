/-
  Attribution.Proofs.Configuring — a settings file says what it is meant to say.

  (1) A choice has values for some of the keys, and sub-licenses with their paths; what it
  does not say is left at the default, key by key (`Choice.settings`). A document writes a
  choice if its tables in single brackets have the chosen keys and no others, and its tables
  in double brackets are the sub-licenses in their order, wherever they stand between the
  others (`Writes`). Every choice can be written, in every such order (`writes_arranged`).

  (2) Each key is found in the table of its group, or nowhere (`setting?_writes`), and each
  sub-license in its own table (`sublicenses?_writes`). So a document gives the settings of
  the choice that it writes (`ofFields?_writes`).

  (3) The file that is chosen is read, and no other; so if it writes a choice, loading gives
  the settings of that choice (`load_writes`).
-/
import Attribution.Proofs.Choosing
import Attribution.Proofs.Encoding
import Attribution.Proofs.Spelling

namespace Attribution.Settings

open Toml (Block Entry Fields Heading IsBareName Value)

/-! ## (1) Choices and how they are written -/

inductive Key where
  | label
  | license
  | cacheRoot
  | copyrightFile
  | output
  deriving DecidableEq

def Key.group : Key → Text
  | .label | .license => "project".toList
  | .cacheRoot | .copyrightFile => "dependencies".toList
  | .output => "output".toList

def Key.name : Key → Text
  | .label => "label".toList
  | .license => "license".toList
  | .cacheRoot => "cache_root".toList
  | .copyrightFile => "copyright_file".toList
  | .output => "path".toList

structure Choice where
  value : Key → Option Text
  sublicenses : List (Text × Text)

def Choice.settings (c : Choice) : Settings where
  label := (c.value .label).getD default.label
  license := ((c.value .license).map Text.encode).getD default.license
  cacheRoot := (c.value .cacheRoot).map Text.encode
  copyrightFile := (c.value .copyrightFile).getD default.copyrightFile
  output := ((c.value .output).map Text.encode).getD default.output
  sublicenses := c.sublicenses.map fun (label, path) => ⟨label, Text.encode path⟩

def SaysSublicense (x : Text × Text) (b : Block) : Prop :=
  b.heading.name = "sublicense".toList ∧
    ∀ key value, b.Says key value ↔ key = "label".toList ∧ value = x.1 ∨ key = "path".toList ∧ value = x.2

/-- A document writes a choice, and nothing else. -/
structure Writes (c : Choice) (blocks : List Block) : Prop where
  once : ((blocks.filter (!·.heading.double)).map (·.heading.name)).Nodup
  known : ∀ b ∈ blocks, b.heading.double = false → ∃ k : Key, b.heading.name = k.group
  entries : ∀ b ∈ blocks, b.heading.double = false →
    ∀ key value, b.Says key value ↔ ∃ k : Key, b.heading.name = k.group ∧ key = k.name ∧ c.value k = some value
  shown : ∀ k, c.value k ≠ none → ∃ b ∈ blocks, b.heading.double = false ∧ b.heading.name = k.group
  sublicenses : List.Forall₂ SaysSublicense c.sublicenses (blocks.filter (·.heading.double))

variable {c : Choice} {blocks : List Block}

theorem Key.eq_of_group_name {k k' : Key} (hgroup : k.group = k'.group) (hname : k.name = k'.name) : k = k' := by
  cases k <;> cases k' <;> first | rfl | exact absurd hgroup (by decide) | exact absurd hname (by decide)

theorem Key.group_ne (k : Key) : k.group ≠ "sublicense".toList := by
  cases k <;> decide

/-! ### Every choice can be written -/

def keys : List Key := [.label, .license, .cacheRoot, .copyrightFile, .output]

theorem Key.isBareName (k : Key) : IsBareName k.name := by
  cases k <;> exact ⟨by decide, by decide⟩

def Choice.entries (c : Choice) (group : Text) : List Entry :=
  (keys.filter fun k => k.group = group ∧ (c.value k).isSome).map fun k =>
    .of k.name ((c.value k).getD []) k.isBareName

theorem Choice.nodup_entries (c : Choice) (group : Text) : ((c.entries group).map Entry.key).Nodup := by
  rw [Choice.entries, List.map_map]
  refine List.Nodup.map_on (fun k hk k' hk' hname => ?_) (List.Nodup.filter _ (by decide))
  have hgroup : k.group = group := (of_decide_eq_true (List.mem_filter.mp hk).2).1
  have hgroup' : k'.group = group := (of_decide_eq_true (List.mem_filter.mp hk').2).1
  exact Key.eq_of_group_name (hgroup.trans hgroup'.symm) hname

def Choice.table (c : Choice) (k : Key) : Block where
  gap := 0
  heading := ⟨k.group, false, by cases k <;> exact ⟨by decide, by decide⟩⟩
  entries := c.entries k.group
  distinct := c.nodup_entries k.group

def sublicenseBlock (x : Text × Text) : Block where
  gap := 0
  heading := ⟨"sublicense".toList, true, by decide, by decide⟩
  entries := [.of "label".toList x.1 ⟨by decide, by decide⟩, .of "path".toList x.2 ⟨by decide, by decide⟩]
  distinct := by
    show ["label".toList, "path".toList].Nodup
    decide

theorem says_table_iff (c : Choice) (g : Key) (key value : Text) : (c.table g).Says key value ↔
    ∃ k : Key, g.group = k.group ∧ key = k.name ∧ c.value k = some value := by
  constructor
  · rintro ⟨e, he, rfl, rfl⟩
    obtain ⟨k, hk, rfl⟩ := List.mem_map.mp he
    have hchosen : k.group = g.group ∧ (c.value k).isSome = true := of_decide_eq_true (List.mem_filter.mp hk).2
    obtain ⟨value, hvalue⟩ := Option.isSome_iff_exists.mp hchosen.2
    exact ⟨k, hchosen.1.symm, rfl, by rw [hvalue]; rfl⟩
  · rintro ⟨k, hgroup, rfl, hvalue⟩
    have hmem : k ∈ keys.filter fun k => k.group = g.group ∧ (c.value k).isSome :=
      List.mem_filter.mpr ⟨by cases k <;> decide, by simp [hgroup, hvalue]⟩
    exact ⟨_, List.mem_map.mpr ⟨k, hmem, rfl⟩, rfl, by rw [hvalue]; rfl⟩

theorem saysSublicense_block (x : Text × Text) : SaysSublicense x (sublicenseBlock x) := by
  refine ⟨rfl, fun key value => ?_⟩
  simp [Block.Says, sublicenseBlock, Entry.of, eq_comm]

/-- The tables of a choice write it, in any order that keeps that of the sub-licenses. -/
theorem writes_arranged (hsingle : (blocks.filter (!·.heading.double)).Perm
      [c.table .label, c.table .cacheRoot, c.table .output])
    (hdouble : blocks.filter (·.heading.double) = c.sublicenses.map sublicenseBlock) : Writes c blocks := by
  have htables : ∀ b ∈ blocks, b.heading.double = false → ∃ k, b = c.table k := by
    intro b hb hfalse
    have hmem := hsingle.mem_iff.mp (List.mem_filter.mpr ⟨hb, by rw [hfalse]; rfl⟩)
    simp only [List.mem_cons, List.not_mem_nil, or_false] at hmem
    obtain rfl | rfl | rfl := hmem
    · exact ⟨_, rfl⟩
    · exact ⟨_, rfl⟩
    · exact ⟨_, rfl⟩
  have hthere : ∀ g ∈ [Key.label, .cacheRoot, .output], c.table g ∈ blocks := by
    intro g hg
    have hmem : c.table g ∈ [Key.label, .cacheRoot, .output].map c.table := List.mem_map_of_mem hg
    exact (List.mem_filter.mp (hsingle.mem_iff.mpr hmem)).1
  refine ⟨?_, fun b hb hfalse => ?_, fun b hb hfalse key value => ?_, fun k _ => ?_, ?_⟩
  · refine ((hsingle.map fun b : Block => b.heading.name).nodup_iff).mpr ?_
    show [Key.label.group, Key.cacheRoot.group, Key.output.group].Nodup
    decide
  · obtain ⟨k, rfl⟩ := htables b hb hfalse
    exact ⟨k, rfl⟩
  · obtain ⟨g, rfl⟩ := htables b hb hfalse
    exact says_table_iff c g key value
  · cases k with
    | label | license => exact ⟨_, hthere .label (by decide), rfl, rfl⟩
    | cacheRoot | copyrightFile => exact ⟨_, hthere .cacheRoot (by decide), rfl, rfl⟩
    | output => exact ⟨_, hthere .output (by decide), rfl, rfl⟩
  · rw [hdouble, List.forall₂_map_right_iff]
    exact List.forall₂_same.mpr fun x _ => saysSublicense_block x

/-! ## (2) What a document gives -/

theorem Writes.name_iff_double (h : Writes c blocks) {b : Block} (hb : b ∈ blocks) :
    b.heading.name = "sublicense".toList ↔ b.heading.double = true := by
  cases hdouble : b.heading.double with
  | true =>
    obtain ⟨x, -, hx⟩ : ∃ x ∈ c.sublicenses, SaysSublicense x b := by
      have hmem : b ∈ blocks.filter (·.heading.double) := List.mem_filter.mpr ⟨hb, hdouble⟩
      obtain ⟨i, hi, hget⟩ := List.mem_iff_getElem.mp hmem
      obtain ⟨hlength, hall⟩ := List.forall₂_iff_get.mp h.sublicenses
      exact ⟨_, List.getElem_mem (hlength ▸ hi), hget ▸ hall i (hlength ▸ hi) hi⟩
    exact ⟨fun _ => rfl, fun _ => hx.1⟩
  | false =>
    obtain ⟨k, hk⟩ := h.known b hb hdouble
    exact ⟨fun hname => absurd (hk.symm.trans hname) k.group_ne, nofun⟩

theorem Writes.compatible (h : Writes c blocks) : blocks.Pairwise Toml.Compatible :=
  Toml.compatible_of_once (fun _ hb => h.name_iff_double hb) h.once

theorem text?_eq {b : Block} {key : Text} {o : Option Text} (h : ∀ value, b.Says key value ↔ o = some value) :
    text? (b.fields.get? key) = some o := by
  cases o with
  | none =>
    rw [Block.get?_eq_none fun value hsaid => absurd ((h value).mp hsaid) nofun]
    rfl
  | some value =>
    rw [Block.get?_eq_some ((h value).mpr rfl)]
    rfl

/-- A key has the text that is chosen for it, or none. -/
theorem setting?_writes (h : Writes c blocks) {fs : Fields}
    (hfs : ∀ name, fs.get? name = Toml.tablesOf (blocks.map Block.part) name) (k : Key) (place : Nat) :
    setting? (fs.get? k.group) k.name place = some (c.value k) := by
  rw [hfs]
  by_cases hthere : ∃ b ∈ blocks, b.heading.double = false ∧ b.heading.name = k.group
  · obtain ⟨b, hb, hsingle, hname⟩ := hthere
    rw [← hname, Toml.tablesOf_single h.compatible hb hsingle]
    refine text?_eq fun value => (h.entries b hb hsingle k.name value).trans ⟨?_, fun hvalue => ⟨k, hname, rfl, hvalue⟩⟩
    rintro ⟨k', hgroup, hkey, hvalue⟩
    rw [Key.eq_of_group_name (hname.symm.trans hgroup) hkey, hvalue]
  · have hnone : c.value k = none := by
      by_contra hsome
      exact hthere (h.shown k hsome)
    rw [Toml.tablesOf_eq_none, hnone]
    · rfl
    · intro b hb hname
      cases hdouble : b.heading.double with
      | true => exact k.group_ne (hname.symm.trans ((h.name_iff_double hb).mpr hdouble))
      | false => exact hthere ⟨b, hb, hdouble, hname⟩

theorem sublicense?_eq {x : Text × Text} {b : Block} (h : SaysSublicense x b) :
    sublicense? (.table .header b.fields) = some ⟨x.1, Text.encode x.2⟩ := by
  have hlabel : text? (b.fields.get? "label".toList) = some (some x.1) :=
    text?_eq fun value => by simp [h.2, eq_comm]
  have hpath : text? (b.fields.get? "path".toList) = some (some x.2) :=
    text?_eq fun value => by simp [h.2, eq_comm]
  simp only [sublicense?, setting?, hlabel, hpath]
  rfl

theorem sublicenses?_writes (h : Writes c blocks) {fs : Fields}
    (hfs : ∀ name, fs.get? name = Toml.tablesOf (blocks.map Block.part) name) :
    sublicenses? (fs.get? "sublicense".toList) = some c.settings.sublicenses := by
  have hrows : sublicenses? (fs.get? "sublicense".toList) =
      ((blocks.filter (·.heading.double)).map Block.fields).mapM fun fs => sublicense? (.table .header fs) := by
    rw [hfs, Toml.tablesOf_double fun b hb => h.name_iff_double hb]
    cases blocks.filter (·.heading.double) <;> rfl
  have hall : ∀ {xs : List (Text × Text)} {bs : List Block}, List.Forall₂ SaysSublicense xs bs →
      (bs.map Block.fields).mapM (fun fs => sublicense? (.table .header fs)) =
        some (xs.map fun (label, path) => ⟨label, Text.encode path⟩) := by
    intro xs bs hsaid
    induction hsaid with
    | nil => rfl
    | cons hx _ ih =>
      rw [List.map_cons, List.mapM_cons, sublicense?_eq hx, ih]
      rfl
  rw [hrows]
  exact hall h.sublicenses

/-- A document gives the settings of the choice that it writes. -/
theorem ofFields?_writes (h : Writes c blocks) :
    (Toml.document? (blocks.flatMap Block.text)).bind ofFields? = some c.settings := by
  obtain ⟨fs, hdocument, hfs⟩ := Toml.document?_blocks h.compatible
  have hgiven := setting?_writes h hfs
  have hlabel : setting? (fs.get? "project".toList) "label".toList 0 = some (c.value .label) := hgiven .label 0
  have hlicense : setting? (fs.get? "project".toList) "license".toList 1 = some (c.value .license) := hgiven .license 1
  have hcache : setting? (fs.get? "dependencies".toList) "cache_root".toList 0 = some (c.value .cacheRoot) :=
    hgiven .cacheRoot 0
  have hcopyright : setting? (fs.get? "dependencies".toList) "copyright_file".toList 1 =
      some (c.value .copyrightFile) := hgiven .copyrightFile 1
  have houtput : setting? (fs.get? "output".toList) "path".toList 0 = some (c.value .output) := hgiven .output 0
  rw [hdocument, Option.bind_some, ofFields?, hlabel, hlicense, hcache, hcopyright, houtput, sublicenses?_writes h hfs]
  rfl

/-! ## (3) Which file -/

def places (env : Environment) (project : Path) : List Path :=
  projectFile project :: (home? env).toList.map homeFile

variable {t : Tree} {here : Location} {env : Environment} {project p : Path} {named : Option Path}

/-- Loading reads the file that is chosen. -/
theorem load_of_chosen (h : Chosen t here (places env project) named (some p)) :
    load t here env project named = read t here p := by
  cases h with
  | named => rfl
  | @first before after _ hsplit hbefore hthere =>
    cases before with
    | nil =>
      obtain ⟨rfl, -⟩ := List.cons.inj hsplit
      exact if_pos hthere
    | cons q before =>
      obtain ⟨rfl, hrest⟩ := List.cons.inj hsplit
      have hproject : t.pathExists here (projectFile project) = false := hbefore _ List.mem_cons_self
      unfold load
      simp only [hproject, Bool.false_eq_true, if_false]
      cases hhome : home? env with
      | none =>
        rw [hhome] at hrest
        exact absurd hrest (by simp)
      | some home =>
        rw [hhome] at hrest
        obtain rfl : homeFile home = p := by
          cases before with
          | nil => exact (List.cons.inj hrest).1
          | cons q' before => exact absurd (List.cons.inj hrest).2 (by simp)
        exact if_pos hthere

/-- A file that writes a choice is loaded as the settings of that choice. -/
theorem load_writes (hchosen : Chosen t here (places env project) named (some p)) (hwrites : Writes c blocks)
    (hfile : t.readBytes here p = .ok (Text.encode (blocks.flatMap Block.text))) :
    load t here env project named = .ok c.settings := by
  have htext : t.readText here p = .ok (blocks.flatMap Block.text) := by
    unfold Tree.readText
    rw [hfile]
    simp only [Text.decode?_encode]
  rw [load_of_chosen hchosen, read, htext]
  simp only [ofFields?_writes hwrites]

open Attribution.Path (ofString)

/-- A choice with texts that have to be escaped, an empty one, and a sub-license that comes twice. -/
def studioChoice : Choice where
  value
    | .label => some ['"', '\\', '\n', '\x00', '\x7F', 'é', '漢', ']', '#']
    | .copyrightFile => some []
    | .output => some "dist/a = b.txt".toList
    | _ => none
  sublicenses := [("opus".toList, "../opus".toList), ("[project]".toList, []), ("opus".toList, "../opus".toList)]

def studioBlocks : List Block :=
  [sublicenseBlock ("opus".toList, "../opus".toList), studioChoice.table .cacheRoot, studioChoice.table .output,
    sublicenseBlock ("[project]".toList, []), studioChoice.table .label,
    sublicenseBlock ("opus".toList, "../opus".toList)]

def studio : Tree where
  entries := [([ofString ".license-bundler"], .directory),
    ([ofString ".license-bundler", ofString "config.toml"], .file (Text.encode (studioBlocks.flatMap Block.text)))]
  wellFormed := ⟨by decide, by decide, by decide, by decide⟩

theorem writes_studio : Writes studioChoice studioBlocks := by
  refine writes_arranged ?_ rfl
  show ([studioChoice.table .cacheRoot, studioChoice.table .output] ++ [studioChoice.table .label]).Perm
    ([studioChoice.table .label] ++ [studioChoice.table .cacheRoot, studioChoice.table .output])
  exact List.perm_append_comm

theorem load_writes_studio : Chosen studio [] (places ⟨none, none, none⟩ (ofString "/")) none
      (some (ofString "/.license-bundler/config.toml")) ∧ Writes studioChoice studioBlocks ∧
    studio.readBytes [] (ofString "/.license-bundler/config.toml") =
      .ok (Text.encode (studioBlocks.flatMap Block.text)) ∧
    load studio [] ⟨none, none, none⟩ (ofString "/") none = .ok studioChoice.settings := by
  have hplaces : places ⟨none, none, none⟩ (ofString "/") = [] ++ ofString "/.license-bundler/config.toml" :: [] := rfl
  have hchosen : Chosen studio [] (places ⟨none, none, none⟩ (ofString "/")) none
      (some (ofString "/.license-bundler/config.toml")) := .first hplaces nofun rfl
  exact ⟨hchosen, writes_studio, rfl, load_writes hchosen writes_studio rfl⟩

end Attribution.Settings
