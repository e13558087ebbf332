/-!
# TOML values

What a TOML document holds.  A table remembers how it came to be, because that decides what the
rest of the document may still add to it.
-/

namespace Mips.Toml

abbrev Name := List Char

inductive Origin where
  /-- Opened by a header of its own. -/
  | header
  /-- Named on the way to a table that a header opens. -/
  | passed
  /-- Named on the way to a value by a dotted key. -/
  | dotted
  /-- Written out as a value, in braces. -/
  | inline
  deriving DecidableEq, Repr

inductive Value where
  | integer (n : Int)
  /-- A word that begins as an integer but has no value, as its characters.  It may stand in a
  document as long as nobody asks for its value. -/
  | misspelt (spelling : List Char)
  /-- A number with a point or an exponent, as its characters. -/
  | float (spelling : List Char)
  | boolean (b : Bool)
  /-- A date, a time of day or both, as its characters. -/
  | moment (spelling : List Char)
  | text (s : List Char)
  | array (items : List Value)
  | table (origin : Origin) (entries : List (Name × Value))
  /-- The tables under a header in double brackets: the one opened last, and those before it. -/
  | tables (last : List (Name × Value)) (earlier : List (List (Name × Value)))
  deriving Repr

abbrev Table := List (Name × Value)

namespace Table

/-- Puts a value under a name, given what is there; none if it may not be put there. -/
def alter (t : Table) (k : Name) (f : Option Value → Option Value) : Option Table :=
  match t with
  | [] => (f none).map fun v => [(k, v)]
  | (k', old) :: t =>
    if k' = k then (f (some old)).map fun v => (k, v) :: t
    else (alter t k f).map ((k', old) :: ·)

/-- Adds a value under a dotted key.  The tables on the way are made as needed; those that are
there must not have been opened by a header or written out, and the last of them must come from a
dotted key. -/
def assign (v : Value) : List Name → Table → Option Table
  | [], _ => none
  | [k], t => t.alter k fun
    | none => some v
    | some _ => none
  | k :: k' :: path, t => t.alter k fun
    | none => (assign v (k' :: path) []).map (.table .dotted)
    | some (.table .dotted entries) => (assign v (k' :: path) entries).map (.table .dotted)
    | some (.table .passed entries) =>
      if path.isEmpty then none else (assign v (k' :: path) entries).map (.table .passed)
    | some (.tables last earlier) =>
      if path.isEmpty then none else (assign v (k' :: path) last).map (.tables · earlier)
    | some _ => none

def follow (f : Option Value → Option Value) : List Name → Table → Option Table
  | [], _ => none
  | [k], t => t.alter k f
  | k :: k' :: path, t => t.alter k fun
    | none => (follow f (k' :: path) []).map (.table .passed)
    | some (.table .inline _) => none
    | some (.table origin entries) => (follow f (k' :: path) entries).map (.table origin)
    | some (.tables last earlier) => (follow f (k' :: path) last).map (.tables · earlier)
    | some _ => none

/-- Opens the table of a header.  It may have been named on the way to others before. -/
def open? : List Name → Table → Option Table :=
  follow fun
    | none => some (.table .header [])
    | some (.table .passed entries) => some (.table .header entries)
    | some _ => none

def openNext? : List Name → Table → Option Table :=
  follow fun
    | none => some (.tables [] [])
    | some (.tables last earlier) => some (.tables [] (last :: earlier))
    | some _ => none

/-- Adds a value under a dotted key to the table that the header `path` has opened, where the empty
path stands for the document itself. -/
def assignAt (path : List Name) (key : List Name) (v : Value) (t : Table) : Option Table :=
  match path with
  | [] => assign v key t
  | k :: path => t |> follow (fun
    | some (.table origin entries) => (assign v key entries).map (.table origin)
    | some (.tables last earlier) => (assign v key last).map (.tables · earlier)
    | _ => none) (k :: path)

end Table

end Mips.Toml
