import Mips.Text.Alphanumeric
import Mips.Text.Blank
/-!
# Environment

The variables that a program finds set when it starts, and the file that can set more of them.
Each line of the file is an assignment; a variable that is set already keeps its value.  A value
may have quotes, escapes and references to other variables.
-/

namespace Mips

abbrev Variables := List (List Char × List Char)

/-- What a reader of the file knows: the variables that are set, and what the file has assigned
so far, the last assignment first. -/
structure Environment where
  values : Variables := []
  assigned : Variables := []
  deriving Repr

namespace Environment

/-- The value that a reference to a variable stands for.  A variable that is set is a name, an
equals sign and a value in one text, in which the reference may go beyond the sign: `A=B` stands for
`x` if the value of `A` is `B=x`. -/
def resolve (e : Environment) (reference : List Char) : List Char :=
  match reference.span (· ≠ '=') with
  | (name, []) => ((e.values.lookup name).or (e.assigned.lookup name)).getD []
  | (name, _ :: start) =>
    match e.values.lookup name with
    | some value =>
      if (start ++ ['=']).isPrefixOf value then value.drop (start.length + 1) else []
    | none => []

inductive Trouble where
  /-- A line is not an assignment, or not text. -/
  | notAssignment
  /-- A variable cannot hold a value, because the value has a zero character. -/
  | unusableValue
  deriving DecidableEq, Repr

def assign (e : Environment) (name value : List Char) : Except Trouble Environment :=
  let assigned := (name, value) :: e.assigned
  if (e.values.lookup name).isSome then .ok { e with assigned }
  else if '\x00' ∈ value then .error .unusableValue
  else .ok { values := (name, value) :: e.values, assigned }

/-! ## Values -/

inductive ValueState where
  /-- Outside of quotes. -/
  | bare
  | inSingle
  | inDouble
  /-- After a backslash, which counts the same way inside and outside of double quotes. -/
  | escaped (quoted : Bool)
  /-- In the name of a variable, which is held in reverse. -/
  | inName (quoted : Bool) (name : List Char)
  /-- In the name of a variable in braces, which is held in reverse. -/
  | inBraces (quoted : Bool) (name : List Char)
  /-- After the value, where only blanks and a comment may stand. -/
  | atEnd
  deriving DecidableEq, Repr

def ValueState.back (quoted : Bool) : ValueState := if quoted then .inDouble else .bare

def escape? (c : Char) : Option Char :=
  if c = 'n' then some '\n'
  else if c ∈ ['\\', '\'', '"', '$', ' '] then some c
  else none

def value? (e : Environment) : ValueState → List Char → Option (List Char)
  | .bare, [] | .atEnd, [] | .escaped false, [] => some []
  | .inName false name, [] => some (e.resolve name.reverse)
  | _, [] => none
  | .atEnd, c :: cs =>
    if c = ' ' ∨ c = '\t' then value? e .atEnd cs else if c = '#' then some [] else none
  | .escaped quoted, c :: cs => do
    let c ← escape? c
    return c :: (← value? e (.back quoted) cs)
  | .inSingle, c :: cs =>
    if c = '\'' then value? e .bare cs else (value? e .inSingle cs).map (c :: ·)
  | .inName quoted name, c :: cs =>
    if Alphanumeric.isAlphanumeric c then value? e (.inName quoted (c :: name)) cs
    else if c = '\x7b' ∧ name = [] then value? e (.inBraces quoted []) cs
    else
      let text := e.resolve name.reverse
      if c = '$' then (value? e (.inName quoted []) cs).map (text ++ ·)
      else (value? e (.back quoted) cs).map fun rest => text ++ c :: rest
  | .inBraces quoted name, c :: cs =>
    if c = '\x7d' then (value? e (.back quoted) cs).map (e.resolve name.reverse ++ ·)
    else value? e (.inBraces quoted (c :: name)) cs
  | .inDouble, c :: cs =>
    if c = '$' then value? e (.inName true []) cs
    else if c = '"' then value? e .bare cs
    else if c = '\\' then value? e (.escaped true) cs
    else (value? e .inDouble cs).map (c :: ·)
  | .bare, c :: cs =>
    if c = '$' then value? e (.inName false []) cs
    else if c = '\'' then value? e .inSingle cs
    else if c = '"' then value? e .inDouble cs
    else if c = '\\' then value? e (.escaped false) cs
    else if c = ' ' ∨ c = '\t' then value? e .atEnd cs
    else (value? e .bare cs).map (c :: ·)

/-! ## Assignments -/

/-- The name in front of an assignment, and the text after it and the white space. -/
def name? (cs : List Char) : Option (List Char × List Char) :=
  match cs with
  | [] => none
  | c :: _ =>
    if c.isAlpha ∨ c = '_' then
      let (name, rest) := cs.span fun c => c.isAlphanum || c = '_' || c = '.'
      some (name, Blank.trimStart rest)
    else none

/-- The name of an assignment and the text after the equals sign.  The word `export` may stand
before the name, and it may be the name itself. -/
def target? (cs : List Char) : Option (List Char × List Char) := do
  let (name, rest) ← name? cs
  match rest with
  | '=' :: rest => return (name, rest)
  | rest =>
    if name = "export".toList then
      match ← name? rest with
      | (name, '=' :: rest) => return (name, rest)
      | _ => none
    else none

def assignment? (e : Environment) (cs : List Char) : Option (List Char × List Char) := do
  let (name, rest) ← target? cs
  match Blank.trimStart rest with
  | [] => return (name, [])
  | '#' :: _ => return (name, [])
  | rest => return (name, ← e.value? .bare rest)

def line (e : Environment) (cs : List Char) : Except Trouble Environment :=
  match Blank.trim cs with
  | [] => .ok e
  | '#' :: _ => .ok e
  | cs =>
    match e.assignment? cs with
    | some (name, value) => e.assign name value
    | none => .error .notAssignment

/-! ## Lines -/

/-- Where the end of a line leaves its reader.  Inside of quotes a line goes on after its end. -/
inductive LineState where
  | complete
  | escaped
  | inSingle
  | escapedInSingle
  | inDouble
  | escapedInDouble
  /-- After white space, where a comment may start. -/
  | atBlank
  deriving DecidableEq, Repr

/-- The state after a character; none at the start of a comment. -/
def LineState.next : LineState → Char → Option LineState
  | .escaped, _ => some .complete
  | .inDouble, c =>
    some (if c = '\\' then .escapedInDouble else if c = '"' then .complete else .inDouble)
  | .escapedInDouble, _ => some .inDouble
  | .inSingle, c =>
    some (if c = '\\' then .escapedInSingle else if c = '\'' then .complete else .inSingle)
  | .escapedInSingle, _ => some .inSingle
  | state, c =>
    if state = .atBlank ∧ c = '#' then none
    else if c = '\\' then some .escaped
    else if c = '"' then some .inDouble
    else if c = '\'' then some .inSingle
    else if state = .complete ∧ Blank.isBlank c ∧ c ≠ '\n' ∧ c ≠ '\r' then some .atBlank
    else some .complete

/-- A line up to its comment, and the state at its end, which is none if there is a comment. -/
def uncommented : LineState → List Char → List Char × Option LineState
  | state, [] => ([], some state)
  | state, c :: cs =>
    match state.next c with
    | none => ([], none)
    | some state =>
      let (text, last) := uncommented state cs
      (c :: text, last)

/-- Carries out the lines of a file, given what is left over of a line that goes on, and the state
at its end.  Answers with the environment, and with what kept it from reading on.  A line that is
not text is nothing. -/
def lines (e : Environment) : List Char → LineState → List (Option (List Char)) →
    Environment × Option Trouble
  | _, state, [] => (e, if state = .complete then none else some .notAssignment)
  | _, _, none :: _ => (e, some .notAssignment)
  | left, state, some line :: rest =>
    let finish (text : List Char) : Environment × Option Trouble :=
      match e.line text with
      | .ok e => lines e [] .complete rest
      | .error trouble => (e, some trouble)
    if (Blank.trimStart (left ++ line)).head? = some '#' then lines e [] .complete rest
    else
      match uncommented state line with
      | (text, none) => finish (left ++ text)
      | (text, some .complete) => finish (left ++ text)
      | (text, some state) => lines e (left ++ text) state rest

/-- The text of a line, given in reverse. -/
def close (line : List UInt8) : Option (List Char) :=
  (String.fromUTF8? line.reverse.toByteArray).map String.toList

/-- Adds a byte to what there is of a line and of the lines before it, all in reverse. -/
def addByte : List UInt8 × List (Option (List Char)) → UInt8 →
    List UInt8 × List (Option (List Char))
  | (line, earlier), b =>
    if b = 10 then ([], close (b :: line) :: earlier) else (b :: line, earlier)

def split (content : ByteArray) : List (Option (List Char)) :=
  let (last, earlier) := content.data.toList.foldl addByte ([], [])
  (if last = [] then earlier else close last :: earlier).reverse

def unmarked (content : ByteArray) : ByteArray :=
  if content.data.toList.take 3 = [0xEF, 0xBB, 0xBF] then content.extract 3 content.size else content

/-- Carries out the assignments in a file.  Answers with the environment, and with what kept it from
reading on. -/
def load (e : Environment) (content : ByteArray) : Environment × Option Trouble :=
  e.lines [] .complete (split (unmarked content))

end Environment

end Mips
