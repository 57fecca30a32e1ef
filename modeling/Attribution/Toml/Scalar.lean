/-
  Attribution.Toml.Scalar — TOML strings, numbers, booleans and dates.

  Readers take what is left of a document and give the value with what is left
  behind it; `none` is a fault. Everything that is not a string is a run of letters,
  digits and signs, and is read as a whole: the run is an integer of 64 bits, a float
  of finite size, a boolean or a date.
-/
import Attribution.Text.Hex
import Attribution.Toml.Value

namespace Attribution.Toml

open Text

/-! ## Characters -/

def isSpace (c : Char) : Bool := c == ' ' || c == '\t'

/-- What may stand in a comment and, quotes and backslashes apart, in a string: no
    control character but the tab. -/
def isPrinting (c : Char) : Bool := c == '\t' || (0x20 ≤ c.toNat && c.toNat != 0x7F)

def newline? : Text → Option Text
  | '\n' :: s => some s
  | '\r' :: '\n' :: s => some s
  | _ => none

/-! ## Strings -/

def unicode? (count : Nat) (s : Text) : Option (Char × Nat) :=
  let digits := s.take count
  if digits.length = count && digits.all isHexDigit then
    let n := numeral 16 digits
    if n < 0xD800 || (0xE000 ≤ n && n < 0x110000) then some (Char.ofNat n, count + 1) else none
  else none

/-- What is escaped behind a backslash, and how many characters spell it. -/
def escape? : Text → Option (Char × Nat)
  | 'b' :: _ => some ('\x08', 1)
  | 't' :: _ => some ('\t', 1)
  | 'n' :: _ => some ('\n', 1)
  | 'f' :: _ => some ('\x0C', 1)
  | 'r' :: _ => some ('\r', 1)
  | '"' :: _ => some ('"', 1)
  | '\\' :: _ => some ('\\', 1)
  | 'u' :: s => unicode? 4 s
  | 'U' :: s => unicode? 8 s
  | _ => none

def consText (c : Char) (read : Option (Text × Text)) : Option (Text × Text) :=
  read.map fun (t, rest) => (c :: t, rest)

/-- The rest of a string in double quotes, the first `skip` characters of which have
    been read. -/
def basicFrom : (skip : Nat) → Text → Option (Text × Text)
  | _, [] => none
  | skip + 1, _ :: s => basicFrom skip s
  | 0, c :: s =>
    if c == '"' then some ([], s)
    else if c == '\\' then match escape? s with
      | some (d, used) => consText d (basicFrom used s)
      | none => none
    else if isPrinting c then consText c (basicFrom 0 s)
    else none

def literalFrom : Text → Option (Text × Text)
  | [] => none
  | c :: s =>
    if c == '\'' then some ([], s)
    else if isPrinting c then consText c (literalFrom s)
    else none

/-- The end of a string of several lines, whose quotes are met here: the last three of
    at most five end it, and those before them belong to it. -/
def longEnd? (quote : Char) (s : Text) : Option (Text × Text) :=
  let run := min 5 (s.takeWhile (· == quote)).length
  if 3 ≤ run then some (List.replicate (run - 3) quote, s.drop run) else none

def blankCount : Text → Nat
  | '\r' :: '\n' :: s => blankCount s + 2
  | c :: s => if isSpace c || c == '\n' then blankCount s + 1 else 0
  | [] => 0

/-- How many characters a backslash at the end of a line leaves out: the line break
    and all blanks around it; none if it is not at the end of a line. -/
def foldedCount? (s : Text) : Option Nat :=
  let blanks := (s.takeWhile isSpace).length
  match newline? (s.drop blanks) with
  | some _ => some (blanks + blankCount (s.drop blanks))
  | none => none

def longBasicFrom : (skip : Nat) → Text → Option (Text × Text)
  | _, [] => none
  | skip + 1, _ :: s => longBasicFrom skip s
  | 0, c :: s =>
    if c == '"' then match longEnd? '"' (c :: s) with
      | some found => some found
      | none => consText c (longBasicFrom 0 s)
    else if c == '\\' then match foldedCount? s with
      | some used => longBasicFrom used s
      | none => match escape? s with
        | some (d, used) => consText d (longBasicFrom used s)
        | none => none
    else if c == '\n' then consText '\n' (longBasicFrom 0 s)
    else if c == '\r' && s.head? == some '\n' then longBasicFrom 0 s
    else if isPrinting c then consText c (longBasicFrom 0 s)
    else none

def longLiteralFrom : Text → Option (Text × Text)
  | [] => none
  | c :: s =>
    if c == '\'' then match longEnd? '\'' (c :: s) with
      | some found => some found
      | none => consText c (longLiteralFrom s)
    else if c == '\n' then consText '\n' (longLiteralFrom s)
    else if c == '\r' && s.head? == some '\n' then longLiteralFrom s
    else if isPrinting c then consText c (longLiteralFrom s)
    else none

def skipNewline (s : Text) : Text := (newline? s).getD s

def string? : Text → Option (Text × Text)
  | '"' :: '"' :: '"' :: s => longBasicFrom 0 (skipNewline s)
  | '"' :: s => basicFrom 0 s
  | '\'' :: '\'' :: '\'' :: s => longLiteralFrom (skipNewline s)
  | '\'' :: s => literalFrom s
  | _ => none

/-! ## Numbers -/

/-- Digits with single underscores between them. -/
def isDigits (isDigit : Char → Bool) : Text → Bool
  | [] => false
  | [c] => isDigit c
  | c :: '_' :: s => isDigit c && isDigits isDigit s
  | c :: s => isDigit c && isDigits isDigit s

def withoutUnderscores (s : Text) : Text := s.filter (· != '_')

def signed : Text → Bool × Text
  | '-' :: s => (true, s)
  | '+' :: s => (false, s)
  | s => (false, s)

def isDecimal (s : Text) : Bool := isDigits Char.isDigit s && (s.length == 1 || s.head? != some '0')

/-- The greatest number that an integer reaches on the side of its sign. -/
def integerLimit (negative : Bool) : Nat := if negative then Nat.pow 2 63 else Nat.pow 2 63 - 1

def isInteger (s : Text) : Bool :=
  match s with
  | '0' :: 'x' :: d => isDigits isHexDigit d && numeral 16 (withoutUnderscores d) ≤ integerLimit false
  | '0' :: 'o' :: d =>
    isDigits (fun c => '0' ≤ c && c ≤ '7') d && numeral 8 (withoutUnderscores d) ≤ integerLimit false
  | '0' :: 'b' :: d =>
    isDigits (fun c => c == '0' || c == '1') d && numeral 2 (withoutUnderscores d) ≤ integerLimit false
  | _ =>
    let (negative, d) := signed s
    isDecimal d && numeral 10 (withoutUnderscores d) ≤ integerLimit negative

/-- The least number that rounds to infinity as a float of 64 bits. -/
def floatLimit : Nat := Nat.pow 2 1024 - Nat.pow 2 970

/-- The number with these digits, times a power of ten, is below the limit of
    floats. Far from the limit the count of digits decides. -/
def isFinite (digits : Text) (exponent : Int) : Bool :=
  let m := numeral 10 digits
  let magnitude : Int := (ofNat m).length + exponent
  if m = 0 || magnitude < 309 then true
  else if 309 < magnitude then false
  else if 0 ≤ exponent then m * Nat.pow 10 exponent.toNat < floatLimit
  else m < floatLimit * Nat.pow 10 (-exponent).toNat

/-- A float with a point, an exponent or both. Below zero every size will do. -/
def isDecimalFloat (s : Text) : Bool :=
  let (negative, t) := signed s
  let isMark := fun c => c == 'e' || c == 'E'
  let mantissa := t.takeWhile fun c => !isMark c
  let power := t.dropWhile fun c => !isMark c
  let whole := mantissa.takeWhile (· != '.')
  let fraction := mantissa.dropWhile (· != '.')
  let (down, digits) := signed (power.drop 1)
  isDecimal whole && (fraction.isEmpty || isDigits Char.isDigit (fraction.drop 1)) &&
    (power.isEmpty || isDigits Char.isDigit digits) && !(fraction.isEmpty && power.isEmpty) &&
    (negative ||
      let scale : Int := numeral 10 (withoutUnderscores digits)
      isFinite (withoutUnderscores (whole ++ fraction.drop 1))
        ((if down then -scale else scale) - (withoutUnderscores (fraction.drop 1)).length))

def isFloat (s : Text) : Bool :=
  isDecimalFloat s || (signed s).2 == "inf".toList || (signed s).2 == "nan".toList

/-! ## Dates -/

def isField (count low high : Nat) (s : Text) : Bool :=
  s.length == count && s.all Char.isDigit && low ≤ numeral 10 s && numeral 10 s ≤ high

def daysIn (year month : Nat) : Nat :=
  if month = 2 then
    if year % 4 = 0 && (year % 100 ≠ 0 || year % 400 = 0) then 29 else 28
  else if month = 4 || month = 6 || month = 9 || month = 11 then 30
  else 31

def isDate (s : Text) : Bool :=
  match splitOn ['-'] s with
  | [year, month, day] =>
    isField 4 0 9999 year && isField 2 1 12 month &&
      isField 2 1 (daysIn (numeral 10 year) (numeral 10 month)) day
  | _ => false

def isTime (s : Text) : Bool :=
  match splitOn [':'] s with
  | [hour, minute, second] =>
    isField 2 0 23 hour && isField 2 0 59 minute && isField 2 0 60 (second.take 2) &&
      match second.drop 2 with
      | [] => true
      | '.' :: decimals => !decimals.isEmpty && decimals.all Char.isDigit
      | _ => false
  | _ => false

def isOffset (s : Text) : Bool :=
  match splitOn [':'] s with
  | [hour, minute] => isField 2 0 23 hour && isField 2 0 59 minute
  | _ => false

def isZonedTime (s : Text) : Bool :=
  let isSign := fun c => c == '+' || c == '-'
  let time := s.takeWhile fun c => !isSign c
  match s.dropWhile fun c => !isSign c with
  | [] => isTime time || ((time.getLast? == some 'Z' || time.getLast? == some 'z') && isTime time.dropLast)
  | _ :: offset => isTime time && isOffset offset

def isDateTime (s : Text) : Bool :=
  isTime s ||
    isDate (s.take 10) && match s.drop 10 with
      | [] => true
      | c :: time => (c == 'T' || c == 't' || c == ' ') && isZonedTime time

/-! ## Any scalar -/

def isRunning (c : Char) : Bool :=
  c.isAlphanum || c == '_' || c == '+' || c == '-' || c == '.' || c == ':'

/-- The run at the start of a text. A date goes on behind one blank if a digit
    follows it. -/
def run (s : Text) : Text :=
  let first := s.takeWhile isRunning
  match s.drop first.length with
  | ' ' :: c :: t =>
    if isDate first && c.isDigit then first ++ ' ' :: (c :: t).takeWhile isRunning else first
  | _ => first

def kind? (s : Text) : Option Kind :=
  if s = "true".toList || s = "false".toList then some .boolean
  else if isDateTime s then some .dateTime
  else if isFloat s then some .float
  else if isInteger s then some .integer
  else none

def scalar? (s : Text) : Option (Value × Text) :=
  match string? s with
  | some (t, rest) => some (.text t, rest)
  | none => (kind? (run s)).map fun k => (.plain k, s.drop (run s).length)

end Attribution.Toml
