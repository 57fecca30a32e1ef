/-
  Attribution.CommandLine — reading the command line.

  (1) A word is an option by its full name behind two dashes, a cluster of one-letter
  options behind one, or a plain word; behind `--` every word is plain.

  (2) Words are read from the left. The value of an option, whether it stands in the
  next word or is attached, is judged when the next option or plain word is met, or
  at the end. An option that is not known is reported in any case, before the value
  of the option before it is judged.
-/
import Attribution.Path

namespace Attribution

open Text

inductive Format where
  | terminal
  | json
  deriving DecidableEq, Repr

structure Options where
  path : Path
  config : Option Path
  license : Option Path
  cacheRoot : Option Path
  output : Option Path
  report : Format
  strict : Bool
  verbose : Bool
  quiet : Bool
  deriving DecidableEq

def Options.default : Options := ⟨Path.here, none, none, none, none, .terminal, false, false, false⟩

namespace CommandLine

/-! ## (1) Words -/

inductive Flag where
  | strict
  | verbose
  | quiet
  deriving DecidableEq, Repr

inductive Slot where
  | path
  | config
  | license
  | cacheRoot
  | output
  | report
  deriving DecidableEq, Repr

inductive Switch where
  | takes (s : Slot)
  | flag (f : Flag)
  | help
  | version
  deriving DecidableEq, Repr

def Slot.shown : Slot → Text
  | .path => "[PATH]".toList
  | .config => "--config <CONFIG>".toList
  | .license => "--license <FILE>".toList
  | .cacheRoot => "--cache-root <DIR>".toList
  | .output => "--output <FILE>".toList
  | .report => "--report <FORMAT>".toList

def Flag.shown : Flag → Text
  | .strict => "--strict".toList
  | .verbose => "--verbose".toList
  | .quiet => "--quiet".toList

def Switch.shown : Switch → Text
  | takes s => s.shown
  | flag f => f.shown
  | help => "--help".toList
  | version => "--version".toList

def longNames : List (Bytes × Switch) :=
  [(Path.ofString "config", .takes .config), (Path.ofString "license", .takes .license),
    (Path.ofString "cache-root", .takes .cacheRoot), (Path.ofString "output", .takes .output),
    (Path.ofString "report", .takes .report), (Path.ofString "strict", .flag .strict),
    (Path.ofString "verbose", .flag .verbose), (Path.ofString "quiet", .flag .quiet),
    (Path.ofString "help", .help), (Path.ofString "version", .version)]

def shortNames : List (Char × Switch) :=
  [('o', .takes .output), ('v', .flag .verbose), ('q', .flag .quiet), ('h', .help), ('V', .version)]

inductive Word where
  /-- Two dashes alone. -/
  | dashes
  | long (name : Bytes) (value : Option Bytes)
  | cluster (letters : Bytes)
  | plain (w : Bytes)
  deriving DecidableEq

def dash : UInt8 := 0x2D

def equals : UInt8 := 0x3D

/-- A name and, behind the first equals sign, a value. -/
def splitValue (w : Bytes) : Bytes × Option Bytes :=
  match w.dropWhile (· != equals) with
  | [] => (w, none)
  | _ :: value => (w.takeWhile (· != equals), some value)

def word : Bytes → Word
  | [a, b] => if a = dash ∧ b = dash then .dashes else if a = dash then .cluster [b] else .plain [a, b]
  | a :: b :: w =>
    if a = dash ∧ b = dash then .long (splitValue w).1 (splitValue w).2
    else if a = dash then .cluster (b :: w)
    else .plain (a :: b :: w)
  | w => .plain w

/-! ## Errors -/

inductive UsageError where
  | unexpected (argument : Text)
  | valueMissing (s : Slot)
  | invalidFormat (value : Text)
  | repeated (s : Switch)
  | unexpectedValue (value : Text) (s : Switch)
  deriving DecidableEq

def UsageError.message : UsageError → Text
  | unexpected a => "unexpected argument '".toList ++ a ++ "' found".toList
  | valueMissing s => "a value is required for '".toList ++ s.shown ++ "' but none was supplied".toList
  | invalidFormat v => "invalid value '".toList ++ v ++ "' for '".toList ++ Slot.report.shown ++ "'".toList
  | repeated s => "the argument '".toList ++ s.shown ++ "' cannot be used multiple times".toList
  | unexpectedValue v s =>
    "unexpected value '".toList ++ v ++ "' for '".toList ++ s.shown ++ "' found; no more were expected".toList

/-- Why reading ends before the last word. -/
inductive Stop where
  | help
  | version
  | wrong (e : UsageError)
  deriving DecidableEq

/-! ## (2) Reading -/

structure Reading where
  path : Option Path
  config : Option Path
  license : Option Path
  cacheRoot : Option Path
  output : Option Path
  report : Option Format
  strict : Bool
  verbose : Bool
  quiet : Bool
  /-- What was begun last, with its value if that has been read, and is still to be
      judged. -/
  pending : Option (Slot × Option Bytes)
  /-- Two dashes have been read. -/
  onlyPlain : Bool
  deriving DecidableEq

namespace Reading

def start : Reading := ⟨none, none, none, none, none, none, false, false, false, none, false⟩

def format? (v : Bytes) : Option Format :=
  if v = Path.ofString "terminal" then some .terminal
  else if v = Path.ofString "json" then some .json
  else none

def hasPath (r : Reading) : Bool :=
  r.path.isSome || r.pending.any fun p => p.1 = .path

def isSet (r : Reading) : Slot → Bool
  | .path => r.path.isSome
  | .config => r.config.isSome
  | .license => r.license.isSome
  | .cacheRoot => r.cacheRoot.isSome
  | .output => r.output.isSome
  | .report => r.report.isSome

def put (r : Reading) (v : Bytes) : Slot → Except Stop Reading
  | .path => .ok { r with path := some v }
  | .config => .ok { r with config := some v }
  | .license => .ok { r with license := some v }
  | .cacheRoot => .ok { r with cacheRoot := some v }
  | .output => .ok { r with output := some v }
  | .report => match format? v with
    | some f => .ok { r with report := some f }
    | none => .error (.wrong (.invalidFormat (decodeLossy v)))

/-- Judges the value of a slot: it may be given once, and is not empty. -/
def give (r : Reading) (s : Slot) (v : Bytes) : Except Stop Reading :=
  if r.isSet s then .error (.wrong (.repeated (.takes s)))
  else if v = [] then .error (.wrong (.valueMissing s))
  else r.put v s

/-- Judges what is pending. -/
def settle (r : Reading) : Except Stop Reading :=
  match r.pending with
  | none => .ok r
  | some (s, none) => .error (.wrong (.valueMissing s))
  | some (s, some v) => give { r with pending := none } s v

def raise (r : Reading) (f : Flag) : Except Stop Reading :=
  match f with
  | .strict => if r.strict then .error (.wrong (.repeated (.flag f))) else .ok { r with strict := true }
  | .verbose => if r.verbose then .error (.wrong (.repeated (.flag f))) else .ok { r with verbose := true }
  | .quiet => if r.quiet then .error (.wrong (.repeated (.flag f))) else .ok { r with quiet := true }

def switch (r : Reading) (s : Switch) : Except Stop Reading := do
  let r ← r.settle
  match s with
  | .takes slot => return { r with pending := some (slot, none) }
  | .flag f => r.raise f
  | .help => .error .help
  | .version => .error .version

def long (r : Reading) (name : Bytes) (value : Option Bytes) : Except Stop Reading :=
  match longNames.lookup name, value with
  | none, _ => .error (.wrong (.unexpected ("--".toList ++ decodeLossy name)))
  | some s, none => r.switch s
  | some (.takes slot), some v => do
    let r ← r.settle
    r.give slot v
  | some s, some v => .error (.wrong (.unexpectedValue (decodeLossy v) s))

/-- Reads one-letter options. What follows one that takes a value is its value, with
    or without an equals sign before it. -/
def cluster : (skip : Nat) → Bytes → Reading → Except Stop Reading
  | _, [], r => .ok r
  | skip + 1, _ :: w, r => cluster skip w r
  | 0, b :: w, r =>
    match readChar b w with
    | (none, _) => .error (.wrong (.unexpected ('-' :: decodeLossy (b :: w))))
    | (some c, used) => match shortNames.lookup c with
      | none => .error (.wrong (.unexpected ['-', c]))
      | some (.takes slot) => match w.drop used with
        | [] => r.switch (.takes slot)
        | e :: value => do
          let r ← r.settle
          r.give slot (if e = equals then value else e :: value)
      | some s => do
        let r ← r.switch s
        cluster used w r

def place (r : Reading) (w : Bytes) : Except Stop Reading :=
  if r.hasPath then .error (.wrong (.unexpected (decodeLossy w)))
  else do
    let r ← r.settle
    return { r with pending := some (.path, some w) }

def step (r : Reading) (w : Bytes) : Except Stop Reading :=
  if r.onlyPlain then r.place w
  else match word w with
    | .dashes => .ok { r with onlyPlain := true }
    | .long name value => r.long name value
    | .cluster letters => cluster 0 letters r
    | .plain w => match r.pending with
      | some (s, none) => .ok { r with pending := some (s, some w) }
      | _ => r.place w

def steps : List Bytes → Reading → Except Stop Reading
  | [], r => r.settle
  | w :: ws, r => do
    let r ← r.step w
    steps ws r

def options (r : Reading) : Options where
  path := r.path.getD Options.default.path
  config := r.config
  license := r.license
  cacheRoot := r.cacheRoot
  output := r.output
  report := r.report.getD Options.default.report
  strict := r.strict
  verbose := r.verbose
  quiet := r.quiet

end Reading

def parse (args : List Bytes) : Except Stop Options :=
  (Reading.steps args .start).map Reading.options

end CommandLine

end Attribution
