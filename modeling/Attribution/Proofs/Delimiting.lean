/-
  Attribution.Proofs.Delimiting — a manifest says all that its report says.

  (1) What is written shows its own end if it can be told, whatever follows, what was
  written and where it stops (`SelfDelimiting`).

  (2) What stands for a character inside a string is read back as the character
  (`escape_cases`), and a quote only ends a string; so strings show their end
  (`selfDelimiting_string`).

  (3) Behind an item of a block comes a comma or a line break, so arrays show their end if
  their items do (`selfDelimiting_array`), and the members of an object can be taken off
  one by one (`member_inj`).

  (4) So do packages and reports: reports with one manifest are one report
  (`render?_complete`).
-/
import Attribution.Proofs.Encoding
import Attribution.Proofs.Failing
import Attribution.Proofs.Spelling

namespace Attribution.Manifest

open Text

/-! ## (1) Writing that shows its end -/

/-- It can be told of a text that goes on what it starts with, and where that ends. -/
def SelfDelimiting {α : Type} (write : α → Option Text) : Prop :=
  ∀ x y s u a b, write x = some s → write y = some u → s ++ a = u ++ b → x = y ∧ a = b

variable {α β : Type}

/-- Writing shows the end also of what can be told from something else that is written. -/
theorem SelfDelimiting.of_map {write : β → Option Text} (h : SelfDelimiting write) {f : α → Option β}
    (hf : ∀ x x' y, f x = some y → f x' = some y → x = x') : SelfDelimiting fun x => (f x).bind write := by
  intro x x' s s' a b hs hs' heq
  obtain ⟨y, hy, hs⟩ := Option.bind_eq_some_iff.mp hs
  obtain ⟨y', hy', hs'⟩ := Option.bind_eq_some_iff.mp hs'
  obtain ⟨rfl, hab⟩ := h _ _ _ _ _ _ hs hs' heq
  exact ⟨hf _ _ _ hy hy', hab⟩

/-! ## (2) Strings -/

/-- A character inside a string stands for itself, or a backslash is followed by what a reader
    takes for the character. -/
theorem escape_cases (c : Char) : (escape c = [c] ∧ c ≠ '"' ∧ c ≠ '\\') ∨
    ∃ e, escape c = '\\' :: e ∧ ∀ rest, Toml.escape? (e ++ rest) = some (c, e.length) := by
  obtain rfl | hquote := eq_or_ne c '"'
  · exact .inr ⟨['"'], rfl, fun _ => rfl⟩
  obtain rfl | hslash := eq_or_ne c '\\'
  · exact .inr ⟨['\\'], rfl, fun _ => rfl⟩
  obtain rfl | hn := eq_or_ne c '\n'
  · exact .inr ⟨['n'], rfl, fun _ => rfl⟩
  obtain rfl | hr := eq_or_ne c '\r'
  · exact .inr ⟨['r'], rfl, fun _ => rfl⟩
  obtain rfl | ht := eq_or_ne c '\t'
  · exact .inr ⟨['t'], rfl, fun _ => rfl⟩
  obtain rfl | hb := eq_or_ne c '\x08'
  · exact .inr ⟨['b'], rfl, fun _ => rfl⟩
  obtain rfl | hf := eq_or_ne c '\x0C'
  · exact .inr ⟨['f'], rfl, fun _ => rfl⟩
  have hescape : escape c = if c.toNat < 0x20 then '\\' :: 'u' :: fourDigits c.toNat else [c] := by
    simp only [escape, fourDigits, beq_iff_eq, hquote, hslash, hn, hr, ht, hb, hf, if_false]
  by_cases hcontrol : c.toNat < 0x20
  · obtain ⟨hall, hvalue⟩ := numeral_fourDigits (Nat.lt_trans hcontrol (by decide))
    exact .inr ⟨'u' :: fourDigits c.toNat, by rw [hescape, if_pos hcontrol],
      Toml.escape?_mark List.mem_cons_self hall hvalue⟩
  · exact .inl ⟨by rw [hescape, if_neg hcontrol], hquote, hslash⟩

/-- What stands for a character shows its end. -/
theorem escape_append_inj {c d : Char} {a b : Text} (h : escape c ++ a = escape d ++ b) : c = d ∧ a = b := by
  obtain ⟨hc, -, hc'⟩ | ⟨e, hc, hread⟩ := escape_cases c
  · obtain ⟨hd, -, hd'⟩ | ⟨e', hd, -⟩ := escape_cases d
    · rw [hc, hd] at h
      exact List.cons.inj h
    · rw [hc, hd] at h
      exact absurd (List.cons.inj h).1 hc'
  · obtain ⟨hd, -, hd'⟩ | ⟨e', hd, hread'⟩ := escape_cases d
    · rw [hc, hd] at h
      exact absurd (List.cons.inj h).1.symm hd'
    · have hrest : e ++ a = e' ++ b := by
        rw [hc, hd] at h
        exact (List.cons.inj h).2
      have hboth := hread a
      rw [hrest, hread' b] at hboth
      obtain ⟨rfl, -⟩ := Prod.mk.inj (Option.some.inj hboth)
      exact ⟨rfl, List.append_cancel_left h⟩

/-- No character stands as a quote. -/
theorem escape_append_ne_quote (c : Char) (a b : Text) : escape c ++ a ≠ '"' :: b := by
  intro h
  obtain ⟨hc, hne, -⟩ | ⟨e, hc, -⟩ := escape_cases c
  · rw [hc] at h
    exact hne (List.cons.inj h).1
  · rw [hc] at h
    exact absurd (List.cons.inj h).1 (by decide)

theorem string_append_inj {s u a b : Text} (h : string s ++ a = string u ++ b) : s = u ∧ a = b := by
  have hbody : s.flatMap escape ++ '"' :: a = u.flatMap escape ++ '"' :: b := by
    simpa [string] using h
  clear h
  induction s generalizing u with
  | nil =>
    cases u with
    | nil => exact ⟨rfl, (List.cons.inj hbody).2⟩
    | cons d u =>
      rw [List.flatMap_cons, List.append_assoc] at hbody
      exact absurd hbody.symm (escape_append_ne_quote _ _ _)
  | cons c s ih =>
    rw [List.flatMap_cons, List.append_assoc] at hbody
    cases u with
    | nil => exact absurd hbody (escape_append_ne_quote _ _ _)
    | cons d u =>
      rw [List.flatMap_cons, List.append_assoc] at hbody
      obtain ⟨rfl, hrest⟩ := escape_append_inj hbody
      obtain ⟨rfl, hab⟩ := ih hrest
      exact ⟨rfl, hab⟩

theorem selfDelimiting_string : SelfDelimiting fun s => some (string s) := by
  rintro s u _ _ a b ⟨⟩ ⟨⟩ h
  exact string_append_inj h

theorem selfDelimiting_path : SelfDelimiting path? := by
  have hpath : path? = fun p => (decode? p).bind fun s => some (string s) := by
    funext p
    rw [path?]
    cases decode? p <;> rfl
  rw [hpath]
  refine selfDelimiting_string.of_map fun p p' s hp hp' => ?_
  rw [← decode?_eq_some_iff.mp hp, ← decode?_eq_some_iff.mp hp']

theorem selfDelimiting_license : SelfDelimiting fun l => some (license l) := by
  rintro (_ | l) (_ | l') _ _ a b ⟨⟩ ⟨⟩ h
  · exact ⟨rfl, List.append_cancel_left h⟩
  · exact absurd (List.cons.inj h).1 (by decide)
  · exact absurd (List.cons.inj h).1 (by decide)
  · obtain ⟨rfl, hab⟩ := string_append_inj h
    exact ⟨rfl, hab⟩

theorem selfDelimiting_risk : SelfDelimiting fun r => some (string (Risk.tag r)) := by
  refine selfDelimiting_string.of_map (f := fun r => some (Risk.tag r)) fun r r' s hr hr' => ?_
  have htag : r.tag = r'.tag := Option.some.inj (hr.trans hr'.symm)
  cases r <;> cases r' <;> first | rfl | cases htag

/-! ## (3) Arrays and objects -/

/-- What stands in a block behind an item, with the items that are left. -/
def behind (right : Char) (depth : Nat) : List Text → Text
  | [] => '\n' :: indent depth ++ [right]
  | item :: items => ',' :: '\n' :: indent (depth + 1) ++ item ++ behind right depth items

theorem block_cons (left right : Char) (depth : Nat) (item : Text) (items : List Text) :
    block left right depth (item :: items) =
      left :: '\n' :: indent (depth + 1) ++ item ++ behind right depth items := by
  have hitems : ∀ item items, List.intercalate ",\n".toList ((item :: items).map (indent (depth + 1) ++ ·)) ++
      '\n' :: indent depth ++ [right] = indent (depth + 1) ++ item ++ behind right depth items := by
    intro item items
    induction items generalizing item with
    | nil => simp [behind]
    | cons next items ih =>
      rw [List.map_cons, List.map_cons, List.intercalate_cons_cons, ← List.map_cons, behind]
      simpa using ih next
  simpa [block] using hitems item items

theorem mapM_cons_eq_some {f : α → Option β} {x : α} {xs : List α} {ys : List β} :
    (x :: xs).mapM f = some ys ↔ ∃ y rest, f x = some y ∧ xs.mapM f = some rest ∧ ys = y :: rest := by
  rw [List.mapM_cons]
  cases f x <;> cases xs.mapM f <;> simp [eq_comm]

section Items

variable {write : α → Option Text} {xs ys : List α} {ss us : List Text} {a b : Text} {depth : Nat}

theorem behind_inj (h : SelfDelimiting write) {right : Char} (hss : xs.mapM write = some ss)
    (hus : ys.mapM write = some us) (heq : behind right depth ss ++ a = behind right depth us ++ b) :
    xs = ys ∧ a = b := by
  induction xs generalizing ys ss us with
  | nil =>
    cases hss
    cases ys with
    | nil =>
      cases hus
      exact ⟨rfl, List.append_cancel_left heq⟩
    | cons y ys =>
      obtain ⟨u, us, -, -, rfl⟩ := mapM_cons_eq_some.mp hus
      exact absurd (List.cons.inj heq).1 (by decide)
  | cons x xs ih =>
    obtain ⟨s, ss, hx, hxs, rfl⟩ := mapM_cons_eq_some.mp hss
    cases ys with
    | nil =>
      cases hus
      exact absurd (List.cons.inj heq).1 (by decide)
    | cons y ys =>
      obtain ⟨u, us, hy, hys, rfl⟩ := mapM_cons_eq_some.mp hus
      simp only [behind, List.append_assoc] at heq
      obtain ⟨rfl, hrest⟩ := h _ _ _ _ _ _ hx hy (List.append_cancel_left heq)
      obtain ⟨rfl, hab⟩ := ih hxs hys hrest
      exact ⟨rfl, hab⟩

theorem array_append_inj (h : SelfDelimiting write) (hss : xs.mapM write = some ss) (hus : ys.mapM write = some us)
    (heq : array depth ss ++ a = array depth us ++ b) : xs = ys ∧ a = b := by
  have hsecond : ∀ (s : Text) (ss : List Text) (a b : Text), array depth (s :: ss) ++ a ≠ array depth [] ++ b := by
    intro s ss a b h
    rw [array, array, block_cons] at h
    exact absurd (List.cons.inj (List.cons.inj h).2).1 (by decide)
  cases xs with
  | nil =>
    cases hss
    cases ys with
    | nil =>
      cases hus
      exact ⟨rfl, List.append_cancel_left heq⟩
    | cons y ys =>
      obtain ⟨u, us, -, -, rfl⟩ := mapM_cons_eq_some.mp hus
      exact absurd heq.symm (hsecond _ _ _ _)
  | cons x xs =>
    obtain ⟨s, ss, hx, hxs, rfl⟩ := mapM_cons_eq_some.mp hss
    cases ys with
    | nil =>
      cases hus
      exact absurd heq (hsecond _ _ _ _)
    | cons y ys =>
      obtain ⟨u, us, hy, hys, rfl⟩ := mapM_cons_eq_some.mp hus
      simp only [array, block_cons, List.append_assoc] at heq
      obtain ⟨rfl, hrest⟩ := h _ _ _ _ _ _ hx hy (List.append_cancel_left heq)
      obtain ⟨rfl, hab⟩ := behind_inj h hxs hys hrest
      exact ⟨rfl, hab⟩

end Items

/-- An array shows its end if its items do. -/
theorem selfDelimiting_array {write : α → Option Text} (h : SelfDelimiting write) (depth : Nat) :
    SelfDelimiting fun xs : List α => (xs.mapM write).map (array depth) := by
  intro xs ys s u a b hs hu heq
  obtain ⟨ss, hss, rfl⟩ := Option.map_eq_some_iff.mp hs
  obtain ⟨us, hus, rfl⟩ := Option.map_eq_some_iff.mp hu
  exact array_append_inj h hss hus heq

def member (key value : Text) : Text := string key ++ ": ".toList ++ value

theorem object_cons (depth : Nat) (key value : Text) (fields : List (Text × Text)) :
    object depth ((key, value) :: fields) = '\x7b' :: '\n' :: indent (depth + 1) ++ member key value ++
      behind '\x7d' depth (fields.map fun (k, v) => member k v) :=
  block_cons _ _ _ _ _

/-- The value of a member shows its end, and the rest of the object follows. -/
theorem member_inj {write : α → Option Text} (h : SelfDelimiting write) {x y : α} {s u key a b : Text}
    (hs : write x = some s) (hu : write y = some u) (heq : member key s ++ a = member key u ++ b) : x = y ∧ a = b := by
  simp only [member, List.append_assoc] at heq
  exact h _ _ _ _ _ _ hs hu (List.append_cancel_left (List.append_cancel_left heq))

/-- The same for a member that stands behind others. -/
theorem behind_member_inj {write : α → Option Text} (h : SelfDelimiting write) {x y : α} {s u key a b : Text}
    {depth : Nat} {fields fields' : List Text} (hs : write x = some s) (hu : write y = some u)
    (heq : behind '\x7d' depth (member key s :: fields) ++ a = behind '\x7d' depth (member key u :: fields') ++ b) :
    x = y ∧ behind '\x7d' depth fields ++ a = behind '\x7d' depth fields' ++ b := by
  simp only [behind, List.append_assoc] at heq
  exact member_inj h hs hu (List.append_cancel_left heq)

/-! ## (4) Reports -/

theorem package?_eq_some {depth : Nat} {p : Package} {s : Text} (h : package? depth p = some s) :
    ∃ path files, path? p.path = some path ∧ (p.copyrightPaths.mapM path?).map (array (depth + 1)) = some files ∧
      s = object depth [("name".toList, string p.name), ("path".toList, path), ("copyright_paths".toList, files),
        ("license".toList, license p.license), ("risk".toList, string p.risk.tag)] := by
  obtain ⟨path, hpath, h⟩ := Option.bind_eq_some_iff.mp h
  obtain ⟨files, hfiles, h⟩ := Option.bind_eq_some_iff.mp h
  exact ⟨path, _, hpath, by rw [hfiles]; rfl, (Option.some.inj h).symm⟩

theorem selfDelimiting_package (depth : Nat) : SelfDelimiting (package? depth) := by
  intro p p' s u a b hs hu heq
  obtain ⟨path, files, hpath, hfiles, rfl⟩ := package?_eq_some hs
  obtain ⟨path', files', hpath', hfiles', rfl⟩ := package?_eq_some hu
  rw [object_cons, object_cons] at heq
  simp only [List.append_assoc, List.map_cons, List.map_nil] at heq
  obtain ⟨hname, h₁⟩ := member_inj selfDelimiting_string rfl rfl (List.append_cancel_left heq)
  obtain ⟨hpath, h₂⟩ := behind_member_inj selfDelimiting_path hpath hpath' h₁
  obtain ⟨hfiles, h₃⟩ := behind_member_inj (selfDelimiting_array selfDelimiting_path (depth + 1)) hfiles hfiles' h₂
  obtain ⟨hlicense, h₄⟩ := behind_member_inj selfDelimiting_license rfl rfl h₃
  obtain ⟨hrisk, h₅⟩ := behind_member_inj selfDelimiting_risk rfl rfl h₄
  cases p
  cases p'
  cases hname
  cases hpath
  cases hfiles
  cases hlicense
  cases hrisk
  exact ⟨rfl, List.append_cancel_left h₅⟩

theorem render?_eq_some {r : Report} {s : Text} (h : render? r = some s) :
    ∃ output packages, path? r.output = some output ∧ (r.packages.mapM (package? 2)).map (array 1) = some packages ∧
      s = object 0 [("output".toList, output), ("project_label".toList, string r.projectLabel),
        ("sublicenses".toList, array 1 (r.sublicenses.map string)), ("packages".toList, packages)] := by
  obtain ⟨output, houtput, h⟩ := Option.bind_eq_some_iff.mp h
  obtain ⟨packages, hpackages, h⟩ := Option.bind_eq_some_iff.mp h
  exact ⟨output, _, houtput, by rw [hpackages]; rfl, (Option.some.inj h).symm⟩

theorem mapM_string (xs : List Text) : xs.mapM (fun s => some (string s)) = some (xs.map string) := List.mapM_pure

theorem selfDelimiting_render : SelfDelimiting render? := by
  intro r r' s u a b hs hu heq
  obtain ⟨output, packages, houtput, hpackages, rfl⟩ := render?_eq_some hs
  obtain ⟨output', packages', houtput', hpackages', rfl⟩ := render?_eq_some hu
  have hsubs : ∀ xs : List Text, (xs.mapM fun s => some (string s)).map (array 1) = some (array 1 (xs.map string)) :=
    fun xs => by rw [mapM_string]; rfl
  rw [object_cons, object_cons] at heq
  simp only [List.append_assoc, List.map_cons, List.map_nil] at heq
  obtain ⟨houtput, h₁⟩ := member_inj selfDelimiting_path houtput houtput' (List.append_cancel_left heq)
  obtain ⟨hlabel, h₂⟩ := behind_member_inj selfDelimiting_string rfl rfl h₁
  obtain ⟨hsublicenses, h₃⟩ := behind_member_inj (selfDelimiting_array selfDelimiting_string 1) (hsubs _) (hsubs _) h₂
  obtain ⟨hpackages, h₄⟩ :=
    behind_member_inj (selfDelimiting_array (selfDelimiting_package 2) 1) hpackages hpackages' h₃
  cases r
  cases r'
  cases houtput
  cases hlabel
  cases hsublicenses
  cases hpackages
  exact ⟨rfl, List.append_cancel_left h₄⟩

/-- A report has no manifest iff a path in it is no text, and reports that have one manifest are
    one report. -/
theorem render?_complete (r r' : Report) : (render? r = none ↔ ∃ p ∈ r.paths, decode? p = none) ∧
    (render? r ≠ none → render? r = render? r' → r = r') := by
  refine ⟨render?_eq_none_iff, fun hsome heq => ?_⟩
  obtain ⟨s, hs⟩ := Option.ne_none_iff_exists'.mp hsome
  exact (selfDelimiting_render r r' s s [] [] hs (heq ▸ hs) rfl).1

end Attribution.Manifest
