import Mips.Address
import Mips.Host.Files
import Mips.Toml.Document
/-!
# Run configurations

Where a program image is placed, where its execution starts, how long it runs and whether it is
traced.  A configuration is read from a TOML document whose entries are the fields; those that are
absent keep their defaults.
-/

namespace Mips

structure RunConfig where
  loadAddress : Word := 0x80000000
  /-- The first instruction, if it is not the first word of the image. -/
  entryPoint : Option Word := none
  /-- How many instructions are executed at most. -/
  instructions : Nat := 100000
  tracePath : Option String := none
  /-- How many lines of a trace are written at most. -/
  traceLimit : Nat := 10000
  deriving DecidableEq, Repr

inductive ConfigField where
  | loadAddress | entryPoint | instructions | tracePath | traceLimit
  deriving DecidableEq, Repr

namespace ConfigField

def all : List ConfigField := [loadAddress, entryPoint, instructions, tracePath, traceLimit]

def name : ConfigField → String
  | loadAddress => "load_address"
  | entryPoint => "entry_point"
  | instructions => "instructions"
  | tracePath => "trace_path"
  | traceLimit => "trace_limit"

def ofName? (name : Toml.Name) : Option ConfigField := all.find? fun f => f.name.toList = name

end ConfigField

inductive ConfigError where
  /-- There is no such file, or it is not text. -/
  | unreadable
  /-- The text is not a TOML document. -/
  | malformed
  | unknownField (name : Toml.Name)
  | invalidAddress (e : AddressError)
  /-- The value of a field is of the wrong kind or out of range. -/
  | invalidValue (field : ConfigField)
  deriving DecidableEq, Repr

namespace ConfigError

def quoted (name : String) : String := "`" ++ name ++ "`"

def message : ConfigError → String
  | unreadable => "cannot be read"
  | malformed => "not a TOML document"
  | unknownField name =>
    "unknown field " ++ quoted (String.ofList name) ++ ", expected one of " ++
      ", ".intercalate (ConfigField.all.map fun f => quoted f.name)
  | invalidAddress e => e.message
  | invalidValue field => "invalid value of " ++ quoted field.name

end ConfigError

namespace RunConfig

/-- The address of the first instruction. -/
def entry (c : RunConfig) : Word := c.entryPoint.getD c.loadAddress

/-- An address: a number, or a text that is one. -/
def address (field : ConfigField) : Toml.Value → Except ConfigError Word
  | .integer n =>
    if 0 ≤ n ∧ n ≤ 0xFFFFFFFF then .ok (.ofInt 32 n) else .error (.invalidValue field)
  | .text s =>
    match Address.read s with
    | .ok a => .ok a
    | .error e => .error (.invalidAddress e)
  | _ => .error (.invalidValue field)

def counter (field : ConfigField) : Toml.Value → Except ConfigError Nat
  | .integer n =>
    if 0 ≤ n ∧ n ≤ 0xFFFFFFFFFFFFFFFF then .ok n.toNat else .error (.invalidValue field)
  | _ => .error (.invalidValue field)

def path (field : ConfigField) : Toml.Value → Except ConfigError String
  | .text s => .ok (String.ofList s)
  | _ => .error (.invalidValue field)

def setField (c : RunConfig) (field : ConfigField) (v : Toml.Value) :
    Except ConfigError RunConfig :=
  match field with
  | .loadAddress => (address field v).map fun a => { c with loadAddress := a }
  | .entryPoint => (address field v).map fun a => { c with entryPoint := some a }
  | .instructions => (counter field v).map fun n => { c with instructions := n }
  | .tracePath => (path field v).map fun p => { c with tracePath := some p }
  | .traceLimit => (counter field v).map fun n => { c with traceLimit := n }

def setEntry (c : RunConfig) (entry : Toml.Name × Toml.Value) : Except ConfigError RunConfig :=
  match ConfigField.ofName? entry.1 with
  | some field => c.setField field entry.2
  | none => .error (.unknownField entry.1)

def precedes : Toml.Name → Toml.Name → Bool
  | [], _ => true
  | _ :: _, [] => false
  | a :: as, b :: bs => a.toNat < b.toNat || (a.toNat = b.toNat && precedes as bs)

/-- The configuration of a table.  Of several mistakes the one whose name is the least counts. -/
def ofTable (t : Toml.Table) : Except ConfigError RunConfig :=
  (t.mergeSort fun a b => precedes a.1 b.1).foldlM setEntry {}

def ofText (text : String) : Except ConfigError RunConfig :=
  match Toml.Document.ofText? text with
  | some t => ofTable t
  | none => .error .malformed

def ofFile (files : Files) (name : String) : Except ConfigError RunConfig :=
  match files.text? name with
  | some text => ofText text
  | none => .error .unreadable

end RunConfig

end Mips
