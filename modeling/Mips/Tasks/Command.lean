import Mips.CommandLine
import Mips.Text.Numeral.Reader
/-!
# Developer commands

The commands of the tool that developers run, each with its own options.
-/

namespace Mips.Tasks

/-- The parts of the library that can be tested on their own, in the order of their tests. -/
inductive Component where
  | cpu | config | memory | system
  deriving DecidableEq, Repr

namespace Component

def all : List Component := [cpu, config, memory, system]

def title : Component → String
  | cpu => "CPU"
  | config => "Config"
  | memory => "Memory"
  | system => "System"

def option : Component → String
  | cpu => "cpu"
  | config => "config"
  | memory => "memory"
  | system => "system"

def path (c : Component) : String := "core::" ++ c.option

end Component

structure TestPlan where
  doc : Bool := false
  ignored : Bool := false
  components : List Component := []
  deriving DecidableEq, Repr

def defaultBudget : Nat := 100000

structure RunPlan where
  image : String
  instructions : Nat := defaultBudget
  config : Option String := none
  release : Bool := false
  deriving DecidableEq, Repr

inductive Command where
  | ci (verbose : Bool)
  | check (verbose : Bool)
  | format (check : Bool)
  | lint (fix : Bool)
  | build (release : Bool)
  | test (plan : TestPlan)
  | bench
  | run (plan : RunPlan)
  | preCommit
  | installHooks
  deriving DecidableEq, Repr

namespace Command

def options? (specs : List OptionSpec) (args : List String) : Option Arguments :=
  (Arguments.read? specs args).filter fun a => a.operands = []

def runPlan? (args : List String) : Option RunPlan := do
  let a ← Arguments.read?
    [.valued "instructions" (some 'n'), .valued "config" (some 'c'), .flag "release"] args
  match a.operands with
  | [image] =>
    let instructions ← a.checked? "instructions" fun s => Numeral.counter? s.toList
    return {
      image
      instructions := instructions.getD defaultBudget
      config := a.value? "config"
      release := a.has "release" }
  | _ => none

def testPlan? (args : List String) : Option TestPlan := do
  let a ← options? ([.flag "doc", .flag "ignored"] ++ Component.all.map (.flag ·.option)) args
  return {
    doc := a.has "doc"
    ignored := a.has "ignored"
    components := Component.all.filter (a.has ·.option) }

def single? (option : String) (command : Bool → Command) (args : List String) : Option Command :=
  (options? [.flag option] args).map fun a => command (a.has option)

def read? : List String → Option Command
  | [] => none
  | name :: args =>
    match name with
    | "ci" => single? "verbose" .ci args
    | "check" => single? "verbose" .check args
    | "fmt" => single? "check" .format args
    | "clippy" => single? "fix" .lint args
    | "build" => single? "release" .build args
    | "test" => (testPlan? args).map .test
    | "bench" => (options? [] args).map fun _ => .bench
    | "run" => (runPlan? args).map .run
    | "pre-commit" => (options? [] args).map fun _ => .preCommit
    | "install-hooks" => (options? [] args).map fun _ => .installHooks
    | _ => none

end Command

end Mips.Tasks
