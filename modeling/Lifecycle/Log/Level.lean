/-!
# Log levels

Messages have one of five levels. A filter lets through the levels up to a given one, or nothing.
-/

namespace Lifecycle

/-- How urgent a message is, most urgent first. -/
inductive Level where
  | error
  | warn
  | info
  | debug
  | trace
deriving DecidableEq

namespace Level

def rank : Level → Nat
  | error => 1
  | warn => 2
  | info => 3
  | debug => 4
  | trace => 5

def text : Level → String
  | error => "ERROR"
  | warn => "WARN"
  | info => "INFO"
  | debug => "DEBUG"
  | trace => "TRACE"

/-- The terminal colour of a message: red, bright yellow, blue, green, grey. -/
def colour : Level → Nat
  | error => 31
  | warn => 93
  | info => 34
  | debug => 32
  | trace => 90

end Level

/-- The least urgent level that is let through, if any is. -/
structure Filter where
  limit : Option Level
deriving DecidableEq

namespace Filter

def admits (f : Filter) (l : Level) : Bool :=
  match f.limit with
  | none => false
  | some limit => l.rank ≤ limit.rank

def text (f : Filter) : String :=
  match f.limit with
  | none => "OFF"
  | some limit => limit.text

/-- Reads the name of a filter in any mix of upper and lower case ASCII letters; any other name, or
none, means messages up to informative ones. -/
def ofName (name : Option String) : Filter :=
  match name.map fun n => n.map Char.toUpper with
  | some "ERROR" => ⟨some .error⟩
  | some "WARN" => ⟨some .warn⟩
  | some "DEBUG" => ⟨some .debug⟩
  | some "TRACE" => ⟨some .trace⟩
  | some "OFF" => ⟨none⟩
  | _ => ⟨some .info⟩

end Filter

end Lifecycle
