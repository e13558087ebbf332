import Mips.CommandLine
import Mips.Cpu.Dump
import Mips.Host.Log.Setting
import Mips.Host.Log.Terminal
import Mips.Snapshot.Text
import Mips.System.Start
/-!
# Launching the interpreter

The program that runs an image from the command line.  Its options are a configuration file and
single settings, which take precedence over the file; `Launch.run` is the whole program as a
function of its arguments, its environment and the files that it finds.
-/

namespace Mips

open Numeral

structure LaunchOptions where
  image : String
  config : Option String := none
  loadAddress : Option Word := none
  entry : Option Word := none
  instructions : Option Nat := none
  trace : Option String := none
  dumpState : Bool := false
  deriving DecidableEq, Repr

namespace LaunchOptions

def specs : List OptionSpec := [
  .valued "config" (some 'c'),
  .valued "load-address" none,
  .valued "entry" (some 'e'),
  .valued "instructions" (some 'n'),
  .valued "trace" (some 't'),
  .flag "dump-state"]

def path? (s : String) : Option String := if s.isEmpty then none else some s

def address? (s : String) : Option Word := (Address.read s.toList).toOption

def ofArguments? (a : Arguments) : Option LaunchOptions :=
  match a.operands with
  | [image] => do
    return {
      image
      config := ← a.checked? "config" path?
      loadAddress := ← a.checked? "load-address" address?
      entry := ← a.checked? "entry" address?
      instructions := ← a.checked? "instructions" fun s => Numeral.counter? s.toList
      trace := ← a.checked? "trace" path?
      dumpState := a.has "dump-state" }
  | _ => none

def read? (args : List String) : Option LaunchOptions :=
  (Arguments.read? specs args).bind ofArguments?

/-- A configuration with the settings of the command line put in place of its own. -/
def merge (o : LaunchOptions) (c : RunConfig) : RunConfig where
  loadAddress := o.loadAddress.getD c.loadAddress
  entryPoint := o.entry.or c.entryPoint
  instructions := o.instructions.getD c.instructions
  tracePath := o.trace.or c.tracePath
  traceLimit := c.traceLimit

def base (o : LaunchOptions) (files : Files) : Except ConfigError RunConfig :=
  match o.config with
  | some name => RunConfig.ofFile files name
  | none => .ok {}

def runConfig (o : LaunchOptions) (files : Files) : Except ConfigError RunConfig :=
  (o.base files).map o.merge

end LaunchOptions

inductive ExitStatus where
  | success
  | failure
  /-- The command line was not understood. -/
  | usage
  | crash
  deriving DecidableEq, Repr

def ExitStatus.code : ExitStatus → Nat
  | success => 0
  | failure => 1
  | usage => 2
  | crash => 101

structure Launch where
  status : ExitStatus
  /-- The text on standard output. -/
  output : String := ""
  /-- Messages that do not depend on what the log records. -/
  warnings : List String := []
  log : Log
  /-- Whether the log is shown with styles. -/
  styled : Bool := false
  files : Files

namespace Launch

def programName : String := "vr4300"

def version : String := "0.1.0"

def logVariable : String := "RUST_LOG"

def variableNames : List String :=
  [logVariable, Log.styleVariable, Log.plainVariable, Log.styledVariable]

/-- The file with variables, which is looked for in the working directory and upwards. -/
def environmentFile : String := ".env"

/-- The files that a launch may read, if its working directory is not more than `levels` deep. -/
def inputs (levels : Nat) (args : List String) : List String :=
  let upwards := (List.range (levels + 1)).map fun k => String.join (List.replicate k "../")
  upwards.map (· ++ environmentFile) ++ match LaunchOptions.read? args with
    | some o => o.image :: o.config.toList
    | none => []

/-- The file that a launch writes its trace to, if it asks for one and has a configuration. -/
def traceFile? (files : Files) (args : List String) : Option String := do
  let c ← (← LaunchOptions.read? args).runConfig files |>.toOption
  c.tracePath

def messages (l : Launch) : List String :=
  l.warnings ++ l.log.entries.toList.map (LogEntry.write l.styled)

def finish (s : System) (status : ExitStatus) (output : String) : Launch :=
  let monitor := s.board.monitor.dropTracer
  { status, output, log := monitor.log, files := monitor.files }

def conclude (o : LaunchOptions) (retired : Nat) (s : System) : Launch :=
  let cpu := s.board.cpu
  let (s, dump) := match cpu.haltReason with
    | some reason => (s.report .program .error fun _ => "Execution halted: " ++ reason, cpu.dump)
    | none => (s.report .program .info fun _ => "Budget exhausted", "")
  let s := s.report .program .info fun _ => "Instructions retired: " ++ decimal retired
  let s := s.report .program .info fun _ => "Final PC: " ++ hex32 cpu.pc
  finish s .success (dump ++ if o.dumpState then cpu.snapshot.text ++ "\n" else "")

def execute (o : LaunchOptions) (c : RunConfig) (s : System) : Launch :=
  let s := s.report .program .info fun _ =>
    "Image: " ++ o.image ++ " at " ++ hex32 c.loadAddress ++ ", entry " ++ hex32 c.entry ++
      ", budget " ++ decimal c.instructions ++ " instructions"
  match s.prepare c o.image with
  | (.error .crash, s) => finish s .crash ""
  | (.error (.fault f), s) =>
    finish (s.report .program .error fun _ => "Failed to start: " ++ f.message) .failure ""
  | (.ok _, s) =>
    let (retired, s) := s.run c.instructions
    conclude o retired s

def runWith (log : Log) (files : Files) (args : List String) : Launch :=
  let s : System := { board.monitor := { files, log } }
  let s := s.report .program .info fun _ => programName ++ " v" ++ version
  match LaunchOptions.read? args with
  | none => finish s .usage ""
  | some o =>
    match o.runConfig files with
    | .error _ => finish s .failure ""
    | .ok c =>
      let s := match o.config with
        | some name => s.report .config .debug fun _ => "Loaded run config from " ++ name
        | none => s
      execute o c s

/-- The environment after the file with variables was read, and the trouble with the file. -/
def environment (values : Variables) (files : Files) :
    Environment × Option Environment.Trouble :=
  match files.nearest? environmentFile with
  | none => ({ values }, none)
  | some content => Environment.load { values } content

/-- The program, given the variables that are set and the files that it finds.  It crashes if the
file with variables has a value that no variable can hold. -/
def run (values : Variables) (files : Files) (args : List String) : Launch :=
  let start (e : Environment) : Launch :=
    let setting := (e.values.lookup logVariable.toList).map String.ofList
    { runWith (Log.ofSetting setting) files args with styled := Log.isStyled e.values }
  match environment values files with
  | (e, none) => start e
  | (e, some .notAssignment) =>
    { start e with warnings := ["Warning: Failed to load " ++ environmentFile ++ " file"] }
  | (_, some .unusableValue) => { status := .crash, log := {}, files }

end Launch

end Mips
