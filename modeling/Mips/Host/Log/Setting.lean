import Mips.Host.Log
import Mips.Text.Blank
import Mips.Text.Regex.Reader
/-!
# Settings of a log

What an operator asks a log to record: directives with commas between them, and after a slash a
pattern for the messages.
-/

namespace Mips

/-- The messages of the sources whose names start with `name`, or of all sources if there is no
name, are recorded up to a level, or not at all. -/
structure Directive where
  name : Option (List Char) := none
  limit : Option Level
  deriving DecidableEq, Repr

namespace Directive

def limit? (word : List Char) : Option (Option Level) :=
  let s := String.ofList word
  if s.map Char.toUpper = "OFF" then some none else (Level.ofName? s).map some

/-- A directive is a level, a name, or both with an equals sign between them.  A name alone asks for
all messages. -/
def read? (cs : List Char) : Option Directive :=
  match cs.span (· ≠ '=') with
  | (word, []) =>
    match limit? word with
    | some limit => some { limit }
    | none => some { name := some word, limit := some .trace }
  | (name, _ :: value) =>
    match Blank.trim value with
    | [] => some { name := some name, limit := some .trace }
    | word => (limit? word).map fun limit => { name := some name, limit }

/-- Adds a directive at the end, or in the place of the one with the same name. -/
def insert (ds : List Directive) (d : Directive) : List Directive :=
  match ds with
  | [] => [d]
  | e :: ds => if e.name = d.name then d :: ds else e :: insert ds d

/-- The directives in a text, which commas separate.  Those that are wrong do not count. -/
def ofText (s : String) : List Directive :=
  (((s.splitOn ",").map fun s => Blank.trim s.toList).filter (· ≠ [])).filterMap read?
    |>.foldl insert []

def appliesTo (source : LogSource) (d : Directive) : Bool :=
  (d.name.getD []).isPrefixOf source.name.toList

/-- The directive for a source: of those that apply to it the one with the longest name, and of
several the last. -/
def select? (source : LogSource) (ds : List Directive) : Option Directive :=
  let length (d : Directive) : Nat := (d.name.getD []).length
  (ds.filter (·.appliesTo source)).foldl (fun best d =>
    match best with
    | some b => if length b ≤ length d then some d else some b
    | none => some d) none

def limits : List Directive → LogLimits
  | [] => .uniform (some .error)
  | ds => .ofSource fun source => (select? source ds).bind (·.limit)

end Directive

/-- The log that a setting asks for.  A setting of more than two parts says nothing, and a pattern
that is none does not count. -/
def Log.ofSetting : Option String → Log
  | none => { limits := .uniform (some .info) }
  | some setting =>
    match setting.splitOn "/" with
    | [directives] => { limits := Directive.limits (Directive.ofText directives) }
    | [directives, pattern] =>
      { limits := Directive.limits (Directive.ofText directives), pattern := Regex.ofText? pattern }
    | _ => { limits := Directive.limits [] }

end Mips
