/-!
# Command lines

The arguments of a program are options and operands.  An option has a long name, and one with a
value may have a short name of one letter too.  A value follows as the next argument, after an
equals sign, or, for a short name, at once.  Two dashes end the options.  No option is given twice,
and no other argument starts with a dash, except for a dash alone.
-/

namespace Mips

inductive OptionSpec where
  | flag (long : String)
  | valued (long : String) (short : Option Char)
  deriving DecidableEq, Repr

def OptionSpec.long : OptionSpec → String
  | flag long | valued long _ => long

def OptionSpec.short? : OptionSpec → Option Char
  | flag _ => none
  | valued _ short => short

inductive ArgumentForm where
  | operand
  /-- The end of the options. -/
  | terminator
  | long (name : String) (value : Option String)
  | short (name : Char) (value : Option String)
  deriving DecidableEq, Repr

def ArgumentForm.of (arg : String) : ArgumentForm :=
  match arg.toList with
  | ['-', '-'] => .terminator
  | '-' :: '-' :: cs =>
    match cs.span (· ≠ '=') with
    | (name, []) => .long (String.ofList name) none
    | (name, _ :: value) => .long (String.ofList name) (some (String.ofList value))
  | ['-', c] => .short c none
  | '-' :: c :: '=' :: value => .short c (some (String.ofList value))
  | '-' :: c :: value => .short c (some (String.ofList value))
  | _ => .operand

/-- The arguments of a program: the options that were given, by their long names, and the
operands. -/
structure Arguments where
  options : List (String × String) := []
  operands : List String := []
  deriving DecidableEq, Repr

namespace Arguments

def addOption (spec : OptionSpec) (value : String) (a : Arguments) : Arguments :=
  { a with options := (spec.long, value) :: a.options }

def addOperand (s : String) (a : Arguments) : Arguments := { a with operands := s :: a.operands }

/-- Takes a command line apart, whether or not options are repeated. -/
def scan (specs : List OptionSpec) : List String → Option Arguments
  | [] => some {}
  | arg :: rest =>
    match ArgumentForm.of arg with
    | .operand => (scan specs rest).map (addOperand arg)
    | .terminator => some { operands := rest }
    | .long name value =>
      match specs.find? (·.long = name), value with
      | some (.flag _), some _ => none
      | some spec, some value => (scan specs rest).map (addOption spec value)
      | some (.flag long), none => (scan specs rest).map (addOption (.flag long) "")
      | some spec, none =>
        match rest with
        | next :: rest =>
          if ArgumentForm.of next = .operand then (scan specs rest).map (addOption spec next)
          else none
        | [] => none
      | none, _ => none
    | .short name value =>
      match specs.find? (·.short? = some name), value with
      | some spec, some value => (scan specs rest).map (addOption spec value)
      | some spec, none =>
        match rest with
        | next :: rest =>
          if ArgumentForm.of next = .operand then (scan specs rest).map (addOption spec next)
          else none
        | [] => none
      | none, _ => none

def read? (specs : List OptionSpec) (args : List String) : Option Arguments :=
  (scan specs args).filter fun a => (a.options.map Prod.fst).Nodup

def has (a : Arguments) (long : String) : Bool := (a.options.lookup long).isSome

def value? (a : Arguments) (long : String) : Option String := a.options.lookup long

/-- The value of an option after it was checked: none if it is given and wrong, and nothing inside
if it is not given. -/
def checked? {α : Type} (a : Arguments) (long : String) (check : String → Option α) :
    Option (Option α) :=
  match a.value? long with
  | none => some none
  | some s => (check s).map some

end Arguments

end Mips
