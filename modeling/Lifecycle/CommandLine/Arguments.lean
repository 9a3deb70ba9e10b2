/-!
# Reading arguments

A command has options that take a value, and may have subcommands. A value follows its option as the
next word, or is joined to it: after `=`, or directly after a one-letter name. A word that starts
with `-`, other than `-` alone, is never taken for the value of the option before it. An option
without a value, or left out, has its default. Asking for help or for the version stops the reading
at once, as does the first word that makes no sense; everything else is judged at the end.
-/

namespace Lifecycle

namespace CommandLine

/-- Why reading stops. -/
inductive Stop where
  /-- Help or the version was asked for. -/
  | help
  | misuse
deriving DecidableEq

/-- The exit status that goes with a stop. -/
def Stop.status : Stop → Nat
  | help => 0
  | misuse => 1

/-- An option that takes a value. -/
structure Opt where
  name : String
  short : Option Char
  default : Option String
deriving DecidableEq

/-- What a command understands. -/
structure Grammar where
  options : List Opt
  commands : List String

/-- An option that was met, and its value if it had one. -/
structure Occurrence where
  name : String
  value : Option String
deriving DecidableEq

/-- What has been read so far. -/
structure Scan where
  met : List Occurrence
  /-- The option that takes the next word. -/
  pending : Option String
  /-- Whether all further words are plain words. -/
  plain : Bool
deriving DecidableEq

namespace Scan

def start : Scan := ⟨[], none, false⟩

/-- An option that still waits for its value is left without one. -/
def close (s : Scan) : Scan :=
  match s.pending with
  | none => s
  | some name => { s with met := s.met ++ [⟨name, none⟩], pending := none }

/-- Meets an option, with the value joined to it or waiting for one. -/
def meet (s : Scan) (name : String) (value : Option String) : Scan :=
  match value with
  | none => { s.close with pending := some name }
  | some v => { s.close with met := s.close.met ++ [⟨name, some v⟩] }

/-- A word becomes the value of the pending option. -/
def fill (s : Scan) (name value : String) : Scan :=
  { s with met := s.met ++ [⟨name, some value⟩], pending := none }

end Scan

/-- Splits at the first equals sign. -/
def splitEquals : List Char → List Char × Option (List Char)
  | [] => ([], none)
  | '=' :: rest => ([], some rest)
  | c :: rest => (c :: (splitEquals rest).1, (splitEquals rest).2)

/-- The value joined to an option, less the equals signs before it. -/
def joined (value : List Char) : String := String.ofList (value.dropWhile (· = '='))

/-- Whether a word looks like an option. -/
def looksLikeOption : List Char → Bool
  | '-' :: _ :: _ => true
  | _ => false

namespace Grammar

/-- Reads a word that starts with two dashes. -/
def long (g : Grammar) (s : Scan) (word : List Char) : Except Stop Scan :=
  let (name, value) := splitEquals (word.dropWhile (· = '-'))
  let name := String.ofList name
  if g.options.any (·.name = name) then .ok (s.meet name (value.map joined))
  else if name = "help" ∨ name = "version" then .error .help
  else .error .misuse

/-- Reads what follows a single dash. -/
def short (g : Grammar) (s : Scan) : List Char → Except Stop Scan
  | [] => .error .misuse
  | c :: value =>
    match g.options.find? (·.short = some c) with
    | some opt => .ok (s.meet opt.name (if value.isEmpty then none else some (joined value)))
    | none => .error (if c = 'h' ∨ c = 'V' then .help else .misuse)

/-- Reads words up to a subcommand, which is returned with the words after it. -/
def scan (g : Grammar) (s : Scan) :
    List String → Except Stop (Scan × Option (String × List String))
  | [] => .ok (s.close, none)
  | word :: rest =>
    let chars := word.toList
    if s.plain then .error .misuse
    else if chars = ['-', '-'] then g.scan { s with plain := true } rest
    else if s.pending.isNone ∧ word ∈ g.commands then .ok (s, some (word, rest))
    else if looksLikeOption chars then
      let read := match chars with
        | '-' :: '-' :: _ => g.long s chars
        | _ => g.short s chars.tail
      match read with
      | .error stop => .error stop
      | .ok s' => g.scan s' rest
    else
      match s.pending with
      | some name => g.scan (s.fill name word) rest
      | none => .error .misuse

/-- The value of an option in the end. -/
def value (opt : Opt) (s : Scan) : Except Stop (Option String) :=
  match s.met.filter (·.name = opt.name) with
  | [] => .ok opt.default
  | [⟨_, some value⟩] => .ok (some value)
  | [⟨_, none⟩] =>
    match opt.default with
    | none => .error .misuse
    | some value => .ok (some value)
  | _ => .error .misuse

end Grammar

/-- Reads a number that fits 64 bits: decimal digits, after a plus sign or not. -/
def readNumber (text : String) : Option Nat :=
  let digits := match text.toList with
    | '+' :: rest => rest
    | chars => chars
  if digits.isEmpty ∨ digits.any (!·.isDigit) then none
  else
    let n := digits.foldl (fun n c => 10 * n + (c.toNat - '0'.toNat)) 0
    if n < UInt64.size then some n else none

end CommandLine

end Lifecycle
