/-
  Attribution.Proofs.Spelling — a document that spells out tables of texts is read as these.

  (1) What stands between quotes spells out a text: a character stands for itself, or for
  what follows a backslash (`Spells`). It is read as the text (`string?_spells`), and every
  text can be spelled out (`spells_spell`).

  (2) A table is written as a header and a line for each of its entries (`Block`). Each line
  is read by itself, and so is the one behind it (`Reads`).

  (3) What tables are seen under a name follows from all blocks with that name, in the order
  of the blocks (`tablesOf`). A header adds a table without entries, and an entry goes into
  the newest table of its name (`Shows`); so a document shows its blocks
  (`document?_blocks`).
-/
import Attribution.Toml.Document

namespace Attribution.Toml

open Text

/-! ## (1) Texts between quotes -/

def escapes : List (Char × Char) :=
  [('b', '\x08'), ('t', '\t'), ('n', '\n'), ('f', '\x0C'), ('r', '\r'), ('"', '"'), ('\\', '\\')]

def unicodeMarks : List (Char × Nat) := [('u', 4), ('U', 8)]

/-- A text, and how it can be spelled between quotes. -/
inductive Spells : Text → Text → Prop
  | nil : Spells [] []
  | plain {c : Char} {s w : Text} : isPrinting c = true → c ≠ '"' → c ≠ '\\' → Spells s w → Spells (c :: s) (c :: w)
  | letter {e c : Char} {s w : Text} : (e, c) ∈ escapes → Spells s w → Spells (c :: s) ('\\' :: e :: w)
  | digits {mark c : Char} {d s w : Text} : (mark, d.length) ∈ unicodeMarks → d.all isHexDigit = true →
      numeral 16 d = c.toNat → Spells s w → Spells (c :: s) ('\\' :: mark :: (d ++ w))

theorem unicode?_eq {c : Char} {d : Text} (hall : d.all isHexDigit = true) (hvalue : numeral 16 d = c.toNat)
    (rest : Text) : unicode? d.length (d ++ rest) = some (c, d.length + 1) := by
  have hvalid : c.toNat < 0xD800 ∨ 0xE000 ≤ c.toNat ∧ c.toNat < 0x110000 := by
    obtain h | ⟨h, h'⟩ := c.valid
    · exact .inl h
    · exact .inr ⟨h, h'⟩
  simp only [unicode?, List.take_left', hall, hvalue, Char.ofNat_toNat, decide_true, Bool.and_true, if_true]
  rw [if_pos (by simpa using hvalid)]

theorem escape?_mark {mark c : Char} {d : Text} (hmark : (mark, d.length) ∈ unicodeMarks)
    (hall : d.all isHexDigit = true) (hvalue : numeral 16 d = c.toNat) (rest : Text) :
    escape? (mark :: (d ++ rest)) = some (c, d.length + 1) := by
  have hread := unicode?_eq hall hvalue rest
  simp only [unicodeMarks, List.mem_cons, Prod.mk.injEq, List.not_mem_nil, or_false] at hmark
  obtain ⟨rfl, hlength⟩ | ⟨rfl, hlength⟩ := hmark
  all_goals
    rw [← hread, hlength]
    rfl

theorem basicFrom_skip (e w : Text) : basicFrom e.length (e ++ w) = basicFrom 0 w := by
  induction e with
  | nil => rfl
  | cons c e ih => exact ih

theorem basicFrom_escape {c : Char} {e w : Text} (h : escape? (e ++ w) = some (c, e.length)) :
    basicFrom 0 ('\\' :: (e ++ w)) = consText c (basicFrom 0 w) := by
  have hbackslash : ('\\' == '"') = false := by decide
  simp only [basicFrom, hbackslash, h, basicFrom_skip, beq_self_eq_true, Bool.false_eq_true, if_false, if_true]

/-- What spells out a text is read as the text. -/
theorem basicFrom_spells {s w : Text} (h : Spells s w) (rest : Text) :
    basicFrom 0 (w ++ '"' :: rest) = some (s, rest) := by
  induction h with
  | nil => rfl
  | @plain c s w hprint hquote hslash _ ih =>
    have hstep : basicFrom 0 (c :: (w ++ '"' :: rest)) = consText c (basicFrom 0 (w ++ '"' :: rest)) := by
      simp only [basicFrom, beq_iff_eq, hquote, hslash, hprint, if_false, if_true]
    rw [List.cons_append, hstep, ih]
    rfl
  | @letter e c s w he _ ih =>
    have hread : escape? ([e] ++ (w ++ '"' :: rest)) = some (c, [e].length) := by
      simp only [escapes, List.mem_cons, Prod.mk.injEq, List.not_mem_nil, or_false] at he
      obtain ⟨rfl, rfl⟩ | ⟨rfl, rfl⟩ | ⟨rfl, rfl⟩ | ⟨rfl, rfl⟩ | ⟨rfl, rfl⟩ | ⟨rfl, rfl⟩ | ⟨rfl, rfl⟩ := he <;> rfl
    have hstep := basicFrom_escape hread
    rw [ih] at hstep
    exact hstep
  | @digits mark c d s w hmark hall hvalue _ ih =>
    have hstep := basicFrom_escape (e := mark :: d) (escape?_mark hmark hall hvalue (w ++ '"' :: rest))
    rw [ih] at hstep
    simpa [consText] using hstep

/-- Nothing between quotes starts with a quote. -/
theorem Spells.head?_ne {s w : Text} (h : Spells s w) : w.head? ≠ some '"' := by
  cases h with
  | nil => exact nofun
  | plain _ hquote _ _ => exact fun e => hquote (Option.some.inj e)
  | letter _ _ => exact fun e => absurd (Option.some.inj e) (by decide)
  | digits _ _ _ _ => exact fun e => absurd (Option.some.inj e) (by decide)

theorem string?_quote {t : Text} (h : ∀ u, t ≠ '"' :: '"' :: u) : string? ('"' :: t) = basicFrom 0 t := by
  unfold string?
  split
  · next heq =>
    cases heq
    exact absurd rfl (h _)
  · next heq =>
    cases heq
    rfl
  · next heq => cases heq
  · next heq => cases heq
  · next _ hother _ _ => exact absurd rfl (hother t)

/-- A text between quotes, with no third quote behind them. -/
theorem string?_spells {s w rest : Text} (h : Spells s w) (hrest : rest.head? ≠ some '"') :
    string? ('"' :: (w ++ '"' :: rest)) = some (s, rest) := by
  rw [string?_quote, basicFrom_spells h]
  intro u heq
  have hhead := h.head?_ne
  cases w with
  | nil =>
    rw [(List.cons.inj heq).2] at hrest
    exact hrest rfl
  | cons c w =>
    rw [(List.cons.inj heq).1] at hhead
    exact hhead rfl

def spellChar (c : Char) : Text :=
  if c == '"' || c == '\\' then ['\\', c]
  else if isPrinting c then [c]
  else '\\' :: 'u' :: fourDigits c.toNat

def spell (s : Text) : Text := s.flatMap spellChar

theorem spells_spell (s : Text) : Spells s (spell s) := by
  induction s with
  | nil => exact .nil
  | cons c s ih =>
    rw [spell, List.flatMap_cons, ← spell, spellChar]
    by_cases hquote : c = '"'
    · subst hquote
      exact .letter (by decide) ih
    by_cases hslash : c = '\\'
    · subst hslash
      exact .letter (by decide) ih
    by_cases hprint : isPrinting c = true
    · simp only [hquote, hslash, hprint, beq_iff_eq, Bool.or_eq_true, or_self, if_false, if_true]
      exact .plain hprint hquote hslash ih
    · simp only [hquote, hslash, hprint, beq_iff_eq, Bool.or_eq_true, or_self, if_false]
      have hsmall : c.toNat < 0x100 := by
        simp [isPrinting] at hprint
        omega
      obtain ⟨hall, hvalue⟩ := numeral_fourDigits hsmall
      exact .digits List.mem_cons_self hall hvalue ih

/-! ## (2) Lines -/

def IsBareName (name : Text) : Prop := name ≠ [] ∧ name.all isBare = true

structure Entry where
  key : Text
  value : Text
  spelling : Text
  bare : IsBareName key
  spells : Spells value spelling

structure Heading where
  name : Text
  double : Bool
  bare : IsBareName name

structure Block where
  gap : Nat
  heading : Heading
  entries : List Entry
  distinct : (entries.map Entry.key).Nodup

def Entry.field (e : Entry) : Text × Value := (e.key, .text e.value)

def Entry.line (e : Entry) : Text := e.key ++ ' ' :: '=' :: ' ' :: '"' :: (e.spelling ++ ['"', '\n'])

def Entry.of (key value : Text) (bare : IsBareName key) : Entry := ⟨key, value, spell value, bare, spells_spell value⟩

def Heading.line (h : Heading) : Text :=
  if h.double then '[' :: '[' :: (h.name ++ [']', ']', '\n']) else '[' :: (h.name ++ [']', '\n'])

def Block.text (b : Block) : Text := List.replicate b.gap '\n' ++ (b.heading.line ++ b.entries.flatMap Entry.line)

theorem ne_of_isBare {c d : Char} (hc : isBare c = true) (hd : isBare d = false) : c ≠ d := by
  rintro rfl
  rw [hc] at hd
  cases hd

theorem IsBareName.exists_cons {name : Text} (h : IsBareName name) : ∃ c rest, name = c :: rest ∧ isBare c = true := by
  obtain ⟨hne, hall⟩ := h
  cases name with
  | nil => exact absurd rfl hne
  | cons c name => exact ⟨c, name, rfl, (Bool.and_eq_true_iff.mp hall).1⟩

theorem isSpace_eq_false {c : Char} (hspace : c ≠ ' ') (htab : c ≠ '\t') : isSpace c = false := by
  simp [isSpace, hspace, htab]

theorem skipSpaces_cons {c : Char} (h : isSpace c = false) (s : Text) : skipSpaces (c :: s) = c :: s :=
  List.dropWhile_cons_of_neg (by simp [h])

theorem keyPart?_bare {name tail : Text} (hname : IsBareName name) (htail : tail.takeWhile isBare = []) :
    keyPart? (name ++ tail) = some (name, tail) := by
  have htake : (name ++ tail).takeWhile isBare = name := by
    rw [List.takeWhile_append_of_pos (List.all_eq_true.mp hname.2), htail, List.append_nil]
  obtain ⟨c, rest, rfl, hc⟩ := hname.exists_cons
  unfold keyPart?
  split
  · next heq => exact absurd (List.cons.inj heq).1 (ne_of_isBare hc (by decide))
  · next heq => exact absurd (List.cons.inj heq).1 (ne_of_isBare hc (by decide))
  · simp only [htake, List.drop_left']
    rfl

/-- A bare name in front of an equals sign or a bracket is a key of one part. -/
theorem key?_bare {name rest : Text} {c : Char} (hname : IsBareName name) (tail : Text)
    (htail : tail.takeWhile isBare = []) (hrest : skipSpaces tail = c :: rest) (hdot : c ≠ '.') :
    key? (name ++ tail) = some (([], name), c :: rest) := by
  have hskip : skipSpaces (name ++ tail) = name ++ tail := by
    obtain ⟨d, name, rfl, hd⟩ := hname.exists_cons
    exact skipSpaces_cons (isSpace_eq_false (ne_of_isBare hd (by decide)) (ne_of_isBare hd (by decide))) _
  have hparts : keyParts? ((name ++ tail).length + 1) (name ++ tail) = some ([name], c :: rest) := by
    simp only [keyParts?, hskip, keyPart?_bare hname htail, hrest, Option.bind_eq_bind, Option.bind_some]
    split
    · next heq => exact absurd (List.cons.inj heq).1 hdot
    · rfl
  simp only [key?, hparts]
  rfl

theorem value?_spells {s w rest : Text} (h : Spells s w) :
    value? (nesting - 1) ('"' :: (w ++ '"' :: '\n' :: rest)) = some (.text s, '\n' :: rest) := by
  have hscalar : value? (nesting - 1) ('"' :: (w ++ '"' :: '\n' :: rest)) =
      scalar? ('"' :: (w ++ '"' :: '\n' :: rest)) := rfl
  rw [hscalar, scalar?, string?_spells h (by simp)]

theorem assignment?_entry (e : Entry) (rest : Text) :
    assignment? (value? (nesting - 1)) (e.line ++ rest) = some (([], e.key), .text e.value, '\n' :: rest) := by
  have hkey := key?_bare e.bare (' ' :: '=' :: ' ' :: '"' :: (e.spelling ++ '"' :: '\n' :: rest)) rfl rfl (by decide)
  have hline : e.line ++ rest = e.key ++ ' ' :: '=' :: ' ' :: '"' :: (e.spelling ++ '"' :: '\n' :: rest) := by
    simp [Entry.line]
  rw [hline, assignment?, hkey]
  show (value? (nesting - 1) ('"' :: (e.spelling ++ '"' :: '\n' :: rest))).bind _ = _
  rw [value?_spells e.spells]
  rfl

/-- An entry goes where the last header says. -/
theorem field?_entry {r : Reading} {e : Entry} {fields : Fields}
    (h : Fields.update? false (fun _ fs => fs.add? e.key (.text e.value)) r.place .header r.fields = some fields)
    (rest : Text) : field? r (e.line ++ rest) = some ({ r with fields := fields }, rest) := by
  rw [field?, assignment?_entry]
  show (Fields.update? false (fun _ fs => fs.add? e.key (.text e.value)) r.place .header r.fields).bind _ = _
  rw [h]
  rfl

theorem header?_bracket {r : Reading} {t : Text} (h : t.head? ≠ some '[') : header? r ('[' :: t) = do
    let ((path, key), s) ← key? t
    let rest ← afterHeader? "]".toList s
    let fields ← r.fields.open? path key
    return (⟨fields, path ++ [key]⟩, rest) := by
  unfold header?
  split
  · next heq =>
    cases heq
    exact absurd rfl h
  · next heq =>
    cases heq
    rfl
  · next hother => exact absurd rfl (hother t)

/-- A header opens a table, or one more table of its name. -/
theorem header?_heading {r : Reading} {h : Heading} {fields : Fields}
    (hopen : (if h.double then r.fields.openNext? [] h.name else r.fields.open? [] h.name) = some fields)
    (rest : Text) : header? r (h.line ++ rest) = some (⟨fields, [h.name]⟩, rest) := by
  cases hdouble : h.double with
  | true =>
    have hline : h.line ++ rest = '[' :: '[' :: (h.name ++ ']' :: ']' :: '\n' :: rest) := by
      simp [Heading.line, hdouble]
    have hkey := key?_bare h.bare (']' :: ']' :: '\n' :: rest) rfl rfl (by decide)
    rw [hdouble, if_pos rfl] at hopen
    rw [hline, header?, hkey]
    show (r.fields.openNext? [] h.name).bind _ = _
    rw [hopen]
    rfl
  | false =>
    have hline : h.line ++ rest = '[' :: (h.name ++ ']' :: '\n' :: rest) := by simp [Heading.line, hdouble]
    have hkey := key?_bare h.bare (']' :: '\n' :: rest) rfl rfl (by decide)
    have hfirst : (h.name ++ ']' :: '\n' :: rest).head? ≠ some '[' := by
      obtain ⟨c, name, hname, hc⟩ := h.bare.exists_cons
      rw [hname]
      exact fun e => ne_of_isBare hc (by decide) (Option.some.inj e)
    rw [hdouble, if_neg Bool.false_ne_true] at hopen
    rw [hline, header?_bracket hfirst, hkey]
    show (r.fields.open? [] h.name).bind _ = _
    rw [hopen]
    rfl

/-- Reading these lines from here on ends there. -/
def Reads (s : Text) (r r' : Reading) : Prop := ∀ fuel, s.length < fuel → lines? fuel r s = some r'

theorem reads_nil (r : Reading) : Reads [] r r := by
  intro fuel h
  cases fuel with
  | zero => cases h
  | succ fuel => rfl

theorem reads_gap {s : Text} {r r' : Reading} (h : Reads s r r') (n : Nat) :
    Reads (List.replicate n '\n' ++ s) r r' := by
  induction n with
  | zero => exact h
  | succ n ih =>
    intro fuel hfuel
    cases fuel with
    | zero => cases hfuel
    | succ fuel => exact ih fuel (Nat.lt_of_succ_lt_succ hfuel)

theorem lineEnd?_eq_none {c : Char} (hspace : isSpace c = false) (hline : c ≠ '\n') (hreturn : c ≠ '\r')
    (hcomment : c ≠ '#') (s : Text) : lineEnd? (c :: s) = none := by
  unfold lineEnd?
  rw [skipSpaces_cons hspace]
  simp only [List.head?_cons, Option.some.injEq, hcomment, if_false, List.isEmpty_cons, Bool.false_eq_true]
  unfold newline?
  split
  · next heq => exact absurd (List.cons.inj heq).1 hline
  · next heq => exact absurd (List.cons.inj heq).1 hreturn
  · rfl

/-- A line that is a header or an entry, and those behind it. -/
theorem reads_line {c : Char} {line s : Text} {r r₁ r' : Reading} (hc : c = '[' ∨ isBare c = true)
    (hline : (if c = '[' then header? r (c :: line ++ s) else field? r (c :: line ++ s)) = some (r₁, s))
    (h : Reads s r₁ r') : Reads (c :: line ++ s) r r' := by
  have hspace : isSpace c = false ∧ c ≠ '\n' ∧ c ≠ '\r' ∧ c ≠ '#' := by
    obtain rfl | hbare := hc
    · decide
    · exact ⟨isSpace_eq_false (ne_of_isBare hbare (by decide)) (ne_of_isBare hbare (by decide)),
        ne_of_isBare hbare (by decide), ne_of_isBare hbare (by decide), ne_of_isBare hbare (by decide)⟩
  obtain ⟨hspace, hnewline, hreturn, hcomment⟩ := hspace
  intro fuel hfuel
  cases fuel with
  | zero => cases hfuel
  | succ fuel =>
    have hshort : s.length < fuel := by
      simp only [List.cons_append, List.length_cons, List.length_append] at hfuel
      omega
    rw [List.cons_append] at hline ⊢
    simp only [lines?, skipSpaces_cons hspace, lineEnd?_eq_none hspace hnewline hreturn hcomment, List.head?_cons,
      Option.some.injEq]
    split at hline
    · next hbracket =>
      rw [if_pos hbracket, hline]
      exact h fuel hshort
    · next hbracket =>
      rw [if_neg hbracket, hline]
      exact h fuel hshort

theorem reads_entry {e : Entry} {s : Text} {r r₁ r' : Reading} (hfield : field? r (e.line ++ s) = some (r₁, s))
    (h : Reads s r₁ r') : Reads (e.line ++ s) r r' := by
  obtain ⟨c, rest, hkey, hc⟩ := e.bare.exists_cons
  have hline : e.line = c :: (rest ++ ' ' :: '=' :: ' ' :: '"' :: (e.spelling ++ ['"', '\n'])) := by
    rw [Entry.line, hkey, List.cons_append]
  rw [hline] at hfield ⊢
  refine reads_line (.inr hc) ?_ h
  rw [if_neg (ne_of_isBare hc (by decide)), hfield]

theorem Heading.exists_cons (h : Heading) : ∃ s, h.line = '[' :: s := by
  unfold Heading.line
  split
  · exact ⟨_, rfl⟩
  · exact ⟨_, rfl⟩

theorem Block.exists_cons (b : Block) : ∃ c s, b.text = c :: s ∧ (c = '\n' ∨ c = '[') := by
  obtain ⟨s, hs⟩ := b.heading.exists_cons
  unfold Block.text
  cases b.gap with
  | zero => exact ⟨'[', s ++ b.entries.flatMap Entry.line, by rw [hs]; rfl, .inr rfl⟩
  | succ n => exact ⟨'\n', _, rfl, .inl rfl⟩

theorem reads_heading {h : Heading} {s : Text} {r r₁ r' : Reading} (hheader : header? r (h.line ++ s) = some (r₁, s))
    (hr : Reads s r₁ r') : Reads (h.line ++ s) r r' := by
  obtain ⟨line, hline⟩ := h.exists_cons
  rw [hline] at hheader ⊢
  refine reads_line (.inl rfl) ?_ hr
  rw [if_pos rfl, hheader]

/-! ## (3) Tables -/

theorem get?_append (fs fs' : Fields) (key : Text) : Fields.get? (fs ++ fs') key = (fs.get? key).or (fs'.get? key) :=
  List.lookup_append

theorem get?_cons (key : Text) (v : Value) (fs : Fields) (k : Text) :
    Fields.get? ((key, v) :: fs) k = if k = key then some v else fs.get? k := by
  rw [Fields.get?, List.lookup_cons]
  by_cases h : k = key
  · simp [h]
  · simp [h, Fields.get?, beq_eq_false_iff_ne.mpr h]

/-- Only the value of the key changes, if it has one. -/
theorem get?_set (fs : Fields) (key : Text) (v : Value) (k : Text) :
    (fs.set key v).get? k = if k = key then (fs.get? key).map fun _ => v else fs.get? k := by
  induction fs with
  | nil => simp [Fields.set, Fields.get?]
  | cons f fs ih =>
    obtain ⟨name, w⟩ := f
    rw [Fields.set, List.map_cons, ← Fields.set, get?_cons name]
    by_cases hname : name = key
    · subst hname
      rw [if_pos rfl, get?_cons, get?_cons, ih]
      by_cases hk : k = name
      · simp [hk]
      · simp [hk]
    · rw [if_neg hname, get?_cons, ih, get?_cons]
      by_cases hk : k = name
      · subst hk
        simp [hname]
      · by_cases hkey : k = key
        · simp [hkey, Ne.symm hname]
        · simp [hk, hkey]

abbrev Part := Heading × Fields

def rowsOf (parts : List Part) (name : Text) : List Fields := (parts.filter (·.1.name = name)).map Prod.snd

/-- What is seen under a name: a table, or an array with a table for each heading. -/
def tablesOf (parts : List Part) (name : Text) : Option Value :=
  match parts.filter (·.1.name = name) with
  | [] => none
  | (h, fs) :: more => some (if h.double then .tables (fs :: more.map Prod.snd) else .table .header fs)

/-- Only tables in double brackets may have a name again. -/
def Free (parts : List Part) (h : Heading) : Prop :=
  ∀ p ∈ parts, p.1.name = h.name → p.1.double = true ∧ h.double = true

variable {parts : List Part} {h : Heading} {fs : Fields}

theorem Free.of_filter {p : Part} {more : List Part} (hfree : Free parts h)
    (hfilter : parts.filter (·.1.name = h.name) = p :: more) : p.1.double = true ∧ h.double = true := by
  have hmem : p ∈ parts.filter (·.1.name = h.name) := hfilter ▸ List.mem_cons_self
  obtain ⟨hp, hname⟩ := List.mem_filter.mp hmem
  exact hfree p hp (of_decide_eq_true hname)

theorem tablesOf_free (hfree : Free parts h) : tablesOf parts h.name =
    if rowsOf parts h.name = [] then none else some (.tables (rowsOf parts h.name)) := by
  unfold tablesOf rowsOf
  cases hfilter : parts.filter (·.1.name = h.name) with
  | nil => rfl
  | cons p more =>
    simp [(hfree.of_filter hfilter).1]

theorem rowsOf_eq_nil_of_single (hfree : Free parts h) (hsingle : h.double = false) : rowsOf parts h.name = [] := by
  rw [rowsOf, List.map_eq_nil_iff, List.filter_eq_nil_iff]
  intro p hp hname
  rw [(hfree p hp (by simpa using hname)).2] at hsingle
  cases hsingle

/-- One more table is seen under its own name and no other. -/
theorem tablesOf_append (hfree : Free parts h) (fs : Fields) (name : Text) : tablesOf (parts ++ [(h, fs)]) name =
    if name = h.name then
      some (if h.double then .tables (rowsOf parts h.name ++ [fs]) else .table .header fs)
    else tablesOf parts name := by
  by_cases hname : name = h.name
  · subst hname
    have hsplit : (parts ++ [(h, fs)]).filter (·.1.name = h.name) = parts.filter (·.1.name = h.name) ++ [(h, fs)] := by
      simp
    rw [if_pos rfl, tablesOf, hsplit, rowsOf]
    cases hfilter : parts.filter (·.1.name = h.name) with
    | nil => rfl
    | cons p more =>
      simp [hfree.of_filter hfilter]
  · rw [if_neg hname]
    simp [tablesOf, Ne.symm hname]

/-- A header adds a table without entries. -/
theorem exists_open {fields : Fields} (hfree : Free parts h)
    (hfields : ∀ name, fields.get? name = tablesOf parts name) :
    ∃ fields', (if h.double then fields.openNext? [] h.name else fields.open? [] h.name) = some fields' ∧
      ∀ name, fields'.get? name = tablesOf (parts ++ [(h, [])]) name := by
  have hold := hfields h.name
  rw [tablesOf_free hfree] at hold
  by_cases hnone : rowsOf parts h.name = []
  · rw [if_pos hnone] at hold
    refine ⟨fields ++ [(h.name, if h.double then .tables [[]] else .table .header [])], ?_, fun name => ?_⟩
    · cases h.double with
      | true => simp [Fields.openNext?, Fields.update?, hold]
      | false => simp [Fields.open?, Fields.update?, hold]
    · rw [get?_append, get?_cons, tablesOf_append hfree, hnone]
      by_cases hname : name = h.name
      · subst hname
        simp [hold]
      · simp [hname, ← hfields, Fields.get?]
  · rw [if_neg hnone] at hold
    have hdouble : h.double = true :=
      Bool.of_not_eq_false fun hsingle => hnone (rowsOf_eq_nil_of_single hfree hsingle)
    refine ⟨fields.set h.name (.tables (rowsOf parts h.name ++ [[]])), ?_, fun name => ?_⟩
    · simp [hdouble, Fields.openNext?, Fields.update?, hold]
    · rw [get?_set, tablesOf_append hfree, hold, hdouble, hfields]
      rfl

/-- An entry with a new key goes into the newest table of its name. -/
theorem exists_add {fields : Fields} {key : Text} {v : Value} (hfree : Free parts h) (hnew : fs.get? key = none)
    (hfields : ∀ name, fields.get? name = tablesOf (parts ++ [(h, fs)]) name) :
    ∃ fields', Fields.update? false (fun _ fs => fs.add? key v) [h.name] .header fields = some fields' ∧
      ∀ name, fields'.get? name = tablesOf (parts ++ [(h, fs ++ [(key, v)])]) name := by
  have hold := hfields h.name
  rw [tablesOf_append hfree, if_pos rfl] at hold
  have hadd : fs.add? key v = some (fs ++ [(key, v)]) := by rw [Fields.add?, hnew]
  refine ⟨fields.set h.name (if h.double then .tables (rowsOf parts h.name ++ [fs ++ [(key, v)]])
    else .table .header (fs ++ [(key, v)])), ?_, fun name => ?_⟩
  · cases hdouble : h.double with
    | true =>
      rw [hdouble, if_pos rfl] at hold
      simp [Fields.update?, hold, hadd]
    | false =>
      rw [hdouble, if_neg Bool.false_ne_true] at hold
      simp [Fields.update?, hold, hadd]
  · rw [get?_set, tablesOf_append hfree, hold, hfields, tablesOf_append hfree]
    by_cases hname : name = h.name <;> simp [hname]

/-! ### Reading on -/

/-- Reading this text leads from one reading to another, whatever follows. -/
def LeadsTo (s : Text) (r r' : Reading) : Prop := ∀ rest r'', Reads rest r' r'' → Reads (s ++ rest) r r''

theorem LeadsTo.append {s u : Text} {r r₁ r₂ : Reading} (h : LeadsTo s r r₁) (h' : LeadsTo u r₁ r₂) :
    LeadsTo (s ++ u) r r₂ := by
  intro rest r'' hrest
  rw [List.append_assoc]
  exact h _ _ (h' _ _ hrest)

def Shows (parts : List Part) (r : Reading) : Prop := ∀ name, r.fields.get? name = tablesOf parts name

theorem Shows.heading {r : Reading} (hr : Shows parts r) (hfree : Free parts h) :
    ∃ r', Shows (parts ++ [(h, [])]) r' ∧ r'.place = [h.name] ∧ LeadsTo h.line r r' := by
  obtain ⟨fields, hopen, hfields⟩ := exists_open hfree hr
  exact ⟨⟨fields, [h.name]⟩, hfields, rfl, fun s _ => reads_heading (header?_heading hopen s)⟩

theorem Shows.entries {es : List Entry} {r : Reading} (hr : Shows (parts ++ [(h, fs)]) r) (hfree : Free parts h)
    (hplace : r.place = [h.name]) (hnew : ∀ e ∈ es, fs.get? e.key = none) (hdistinct : (es.map Entry.key).Nodup) :
    ∃ r', Shows (parts ++ [(h, fs ++ es.map Entry.field)]) r' ∧ LeadsTo (es.flatMap Entry.line) r r' := by
  induction es generalizing fs r with
  | nil =>
    rw [List.map_nil, List.append_nil]
    exact ⟨r, hr, fun _ _ h => h⟩
  | cons e es ih =>
    obtain ⟨hkey, hdistinct⟩ := List.nodup_cons.mp hdistinct
    obtain ⟨fields, hupdate, hfields⟩ := exists_add (v := .text e.value) hfree (hnew e List.mem_cons_self) hr
    rw [← hplace] at hupdate
    have hrest : ∀ e' ∈ es, Fields.get? (fs ++ [e.field]) e'.key = none := by
      intro e' he'
      have hne : e'.key ≠ e.key := fun heq => hkey (List.mem_map.mpr ⟨e', he', heq⟩)
      rw [get?_append, hnew e' (List.mem_cons_of_mem _ he'), Entry.field, get?_cons, if_neg hne]
      rfl
    obtain ⟨r', hr', hlead⟩ := ih (r := { r with fields := fields }) hfields hplace hrest hdistinct
    rw [List.append_assoc] at hr'
    exact ⟨r', hr', LeadsTo.append (fun s _ => reads_entry (field?_entry hupdate s)) hlead⟩

def Block.part (b : Block) : Part := (b.heading, b.entries.map Entry.field)

theorem Shows.block {b : Block} {r : Reading} (hr : Shows parts r) (hfree : Free parts b.heading) :
    ∃ r', Shows (parts ++ [b.part]) r' ∧ LeadsTo b.text r r' := by
  obtain ⟨r₁, hr₁, hplace, hheading⟩ := hr.heading hfree
  obtain ⟨r₂, hr₂, hentries⟩ := hr₁.entries hfree hplace (fun _ _ => rfl) b.distinct
  exact ⟨r₂, hr₂, LeadsTo.append (fun _ _ h => reads_gap h b.gap) (hheading.append hentries)⟩

def Compatible (b b' : Block) : Prop :=
  b.heading.name = b'.heading.name → b.heading.double = true ∧ b'.heading.double = true

theorem Shows.blocks {blocks : List Block} {r : Reading} (done : List Block) (hr : Shows (done.map Block.part) r)
    (hblocks : (done ++ blocks).Pairwise Compatible) :
    ∃ r', Shows ((done ++ blocks).map Block.part) r' ∧ LeadsTo (blocks.flatMap Block.text) r r' := by
  induction blocks generalizing done r with
  | nil =>
    rw [List.append_nil]
    exact ⟨r, hr, fun _ _ h => h⟩
  | cons b blocks ih =>
    have hfree : Free (done.map Block.part) b.heading := by
      intro p hp
      obtain ⟨b', hb', rfl⟩ := List.mem_map.mp hp
      exact (List.pairwise_append.mp hblocks).2.2 b' hb' b List.mem_cons_self
    obtain ⟨r₁, hr₁, hblock⟩ := hr.block hfree
    have hsplit : done ++ b :: blocks = (done ++ [b]) ++ blocks := by simp
    rw [hsplit] at hblocks ⊢
    obtain ⟨r₂, hr₂, hrest⟩ := ih (done ++ [b]) (by rwa [List.map_append]) hblocks
    exact ⟨r₂, hr₂, hblock.append hrest⟩

/-- A document of blocks shows these blocks. -/
theorem document?_blocks {blocks : List Block} (hblocks : blocks.Pairwise Compatible) :
    ∃ fs, document? (blocks.flatMap Block.text) = some fs ∧
      ∀ name, fs.get? name = tablesOf (blocks.map Block.part) name := by
  obtain ⟨r, hr, hlead⟩ := Shows.blocks (r := ⟨[], []⟩) [] (fun _ => rfl) hblocks
  have hlines := hlead [] r (reads_nil r) _ (Nat.lt_succ_self _)
  have hmark : (blocks.flatMap Block.text).head? ≠ some '\uFEFF' := by
    cases blocks with
    | nil => exact nofun
    | cons b blocks =>
      obtain ⟨c, s, htext, hc⟩ := b.exists_cons
      rw [List.flatMap_cons, htext, List.cons_append, List.head?_cons]
      obtain rfl | rfl := hc <;> decide
  rw [List.append_nil] at hlines
  refine ⟨r.fields, ?_, hr⟩
  rw [document?, if_neg hmark]
  show (lines? _ _ _).map _ = _
  rw [hlines]
  rfl

/-! ### What a block says -/

def Block.Says (b : Block) (key value : Text) : Prop := ∃ e ∈ b.entries, e.key = key ∧ e.value = value

def Block.fields (b : Block) : Fields := b.entries.map Entry.field

theorem Block.get?_eq_some {b : Block} {key value : Text} (h : b.Says key value) :
    b.fields.get? key = some (.text value) := by
  obtain ⟨e, he, rfl, rfl⟩ := h
  obtain ⟨before, after, hsplit⟩ := List.append_of_mem he
  have hdistinct := b.distinct
  rw [hsplit, List.map_append, List.map_cons] at hdistinct
  have hbefore : e.key ∉ before.map Entry.key := fun hmem =>
    (List.nodup_append.mp hdistinct).2.2 _ hmem _ List.mem_cons_self rfl
  refine List.lookup_eq_some_iff.mpr ⟨before.map Entry.field, after.map Entry.field, ?_, fun p hp => ?_⟩
  · rw [Block.fields, hsplit, List.map_append, List.map_cons]
    rfl
  · obtain ⟨e', he', rfl⟩ := List.mem_map.mp hp
    exact bne_iff_ne.mpr fun heq => hbefore (List.mem_map.mpr ⟨e', he', heq.symm⟩)

theorem Block.get?_eq_none {b : Block} {key : Text} (h : ∀ value, ¬b.Says key value) : b.fields.get? key = none := by
  refine List.lookup_eq_none_iff.mpr fun p hp => ?_
  obtain ⟨e, he, rfl⟩ := List.mem_map.mp hp
  exact bne_iff_ne.mpr fun heq => h e.value ⟨e, he, heq.symm, rfl⟩

theorem filter_part (blocks : List Block) (name : Text) : (blocks.map Block.part).filter (·.1.name = name) =
    (blocks.filter (·.heading.name = name)).map Block.part := List.filter_map

theorem filter_eq_nil {blocks : List Block} {name : Text} (h : ∀ b ∈ blocks, b.heading.name ≠ name) :
    blocks.filter (·.heading.name = name) = [] :=
  List.filter_eq_nil_iff.mpr fun b hb => by simpa using h b hb

/-- A table in single brackets is seen as it is written. -/
theorem tablesOf_single {blocks : List Block} (hblocks : blocks.Pairwise Compatible) {b : Block} (hb : b ∈ blocks)
    (hsingle : b.heading.double = false) :
    tablesOf (blocks.map Block.part) b.heading.name = some (.table .header b.fields) := by
  obtain ⟨before, after, rfl⟩ := List.append_of_mem hb
  obtain ⟨-, hafter, hbefore⟩ := List.pairwise_append.mp hblocks
  have hfilter : (before ++ b :: after).filter (·.heading.name = b.heading.name) = [b] := by
    rw [List.filter_append, filter_eq_nil, List.filter_cons_of_pos (by simp), filter_eq_nil]
    · rfl
    · intro b' hb' hname
      exact absurd ((List.pairwise_cons.mp hafter).1 b' hb' hname.symm).1 (Bool.eq_false_iff.mp hsingle)
    · intro b' hb' hname
      exact absurd (hbefore b' hb' b List.mem_cons_self hname).2 (Bool.eq_false_iff.mp hsingle)
  rw [tablesOf, filter_part, hfilter]
  show some (if b.heading.double then _ else _) = _
  rw [hsingle]
  rfl

/-- Blocks are compatible if only one name stands in double brackets, and no other name twice. -/
theorem compatible_of_once {blocks : List Block} {name : Text}
    (hnames : ∀ b ∈ blocks, b.heading.name = name ↔ b.heading.double = true)
    (honce : ((blocks.filter (!·.heading.double)).map (·.heading.name)).Nodup) : blocks.Pairwise Compatible := by
  induction blocks with
  | nil => exact .nil
  | cons b blocks ih =>
    have hb := hnames b List.mem_cons_self
    have hrest : ∀ b' ∈ blocks, b'.heading.name = name ↔ b'.heading.double = true :=
      fun b' hb' => hnames b' (List.mem_cons_of_mem _ hb')
    cases hdouble : b.heading.double with
    | true =>
      rw [List.filter_cons_of_neg (by simp [hdouble])] at honce
      refine List.pairwise_cons.mpr ⟨fun b' hb' heq => ⟨hdouble, ?_⟩, ih hrest honce⟩
      exact (hrest b' hb').mp (heq.symm.trans (hb.mpr hdouble))
    | false =>
      rw [List.filter_cons_of_pos (by simp [hdouble]), List.map_cons, List.nodup_cons] at honce
      refine List.pairwise_cons.mpr ⟨fun b' hb' heq => ?_, ih hrest honce.2⟩
      cases hdouble' : b'.heading.double with
      | true =>
        rw [hb.mp (heq.trans ((hrest b' hb').mpr hdouble'))] at hdouble
        cases hdouble
      | false =>
        have hmem : b' ∈ blocks.filter (!·.heading.double) := List.mem_filter.mpr ⟨hb', by rw [hdouble']; rfl⟩
        exact absurd (List.mem_map.mpr ⟨b', hmem, heq.symm⟩) honce.1

theorem tablesOf_eq_none {blocks : List Block} {name : Text} (h : ∀ b ∈ blocks, b.heading.name ≠ name) :
    tablesOf (blocks.map Block.part) name = none := by
  rw [tablesOf, filter_part, filter_eq_nil h]
  rfl

/-- Tables in double brackets are seen in the order in which they are written. -/
theorem tablesOf_double {blocks : List Block} {name : Text}
    (h : ∀ b ∈ blocks, b.heading.name = name ↔ b.heading.double = true) : tablesOf (blocks.map Block.part) name =
      match blocks.filter (·.heading.double) with
      | [] => none
      | b :: more => some (.tables ((b :: more).map Block.fields)) := by
  have hfilter : blocks.filter (·.heading.name = name) = blocks.filter (·.heading.double) :=
    List.filter_congr fun b hb => by simp [h b hb]
  rw [tablesOf, filter_part, hfilter]
  cases hdouble : blocks.filter (·.heading.double) with
  | nil => rfl
  | cons b more =>
    have hb : b.heading.double = true := by
      have hmem : b ∈ blocks.filter (·.heading.double) := hdouble ▸ List.mem_cons_self
      exact (List.mem_filter.mp hmem).2
    show some (if b.heading.double then _ else _) = _
    rw [hb, if_pos rfl, List.map_map]
    rfl

end Attribution.Toml
