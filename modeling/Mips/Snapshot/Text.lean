import Mips.Json.Reader
import Mips.Json.Writer
import Mips.Snapshot.Basic
/-!
# Snapshots as text

The JSON text of a snapshot.  It is written as an object with a member for each part.  It is read
from such an object, with its members in any order and others besides, or from an array of the
parts in their order.  Only the scheduled branch may be left out of an object.
-/

namespace Mips.Snapshot

def ofNat (n : Nat) : Json := .number (Nat.toDigits 10 n)

def toJson (s : Snapshot) : Json := .object [
  ("gpr".toList, .array (s.gpr.toList.map fun d => ofNat d.toNat)),
  ("control".toList, .array (s.control.toList.map fun w => ofNat w.toNat)),
  ("hi".toList, ofNat s.hi.toNat),
  ("lo".toList, ofNat s.lo.toNat),
  ("pc".toList, ofNat s.pc.toNat),
  ("delay_pc".toList, match s.pending with
    | some a => ofNat a.toNat
    | none => .null),
  ("halted".toList, .bool s.halted),
  ("ops_executed".toList, ofNat s.retired.toNat)]

def text (s : Snapshot) : String := s.toJson.text

def parts : List (List Char) :=
  ["gpr", "control", "hi", "lo", "pc", "delay_pc", "halted", "ops_executed"].map String.toList

def bits? (n : Nat) : Json → Option (BitVec n)
  | .number s => do
    let v ← Json.nat? s
    if v < 1 <<< n then some (.ofNat n v) else none
  | _ => none

def table? (n : Nat) : Json → Option (Vector (BitVec n) 32)
  | .array items => do
    let values ← items.mapM (bits? n)
    if h : values.toArray.size = 32 then some ⟨values.toArray, h⟩ else none
  | _ => none

def bool? : Json → Option Bool
  | .bool b => some b
  | _ => none

def pending? : Json → Option (Option Word)
  | .null => some none
  | v => (bits? 32 v).map some

def ofParts? (part : List Char → Option Json) : Option Snapshot := do
  return {
    gpr := ← table? 64 (← part "gpr".toList)
    control := ← table? 32 (← part "control".toList)
    hi := ← bits? 64 (← part "hi".toList)
    lo := ← bits? 64 (← part "lo".toList)
    pc := ← bits? 32 (← part "pc".toList)
    pending := ← pending? (← part "delay_pc".toList)
    halted := ← bool? (← part "halted".toList)
    retired := ← bits? 64 (← part "ops_executed".toList) }

/-- The snapshot of a JSON value.  A name that stands for no text, or for the same part as an
earlier one, is refused. -/
def ofJson? : Json → Option Snapshot
  | .object members => do
    let members ← members.mapM fun (name, v) => return (← Json.string? name, v)
    let known := members.filter fun member => member.1 ∈ parts
    if (known.map Prod.fst).Nodup then
      ofParts? fun name =>
        if name = "delay_pc".toList then some ((known.lookup name).getD .null)
        else known.lookup name
    else none
  | .array items =>
    if items.length = parts.length then ofParts? fun name => (parts.zip items).lookup name
    else none
  | _ => none

def ofText? (text : String) : Option Snapshot := (Json.read? text).bind ofJson?

end Mips.Snapshot
