import Mips.Tasks.Command
import Mips.Tasks.Workshop
/-!
# Performing developer commands

What each command does: the calls of the build tool in their order, the text on the terminal, and
the file of the hook that checks commits.
-/

namespace Mips.Tasks

open Job

/-! ## Calls of the build tool -/

def formatCall (check : Bool) : List String :=
  ["fmt", "--all"] ++ if check then ["--", "--check"] else []

def lintCall (fix : Bool) : List String :=
  ["clippy", "--all-targets", "--all-features"] ++
    if fix then ["--fix"] else ["--", "-D", "warnings"]

def buildCall (release : Bool) : List String := ["build"] ++ if release then ["--release"] else []

/-- The tests that `selection` picks, or the ignored ones among them. -/
def testCall (selection : List String) (ignored : Bool) : List String :=
  ["test", "--all-features"] ++ selection ++ if ignored then ["--", "--ignored"] else []

def runCall (p : RunPlan) : List String :=
  ["run", "--bin", "vr4300"] ++ (if p.release then ["--release"] else []) ++
    ["--", p.image, "-n", Numeral.decimal p.instructions] ++
    match p.config with
    | some config => ["--config", config]
    | none => []

/-! ## Text -/

def heading (title : String) : Piece := .text (.strongly .blue) ("=== " ++ title ++ " ===")

def arrow : Piece := .text (.coloured .blue) "→"

def passed (what : String) : Job Unit :=
  printLine [.raw "\n", .text (.strongly .green) ("✓ " ++ what ++ " passed in"), .raw " ",
    .elapsed .strong]

def step (verbose : Bool) (name : String) (args : List String) : Job Unit := do
  print [arrow, .raw (" " ++ name ++ " ... ")]
  try tool args
  catch e =>
    printLine [.text (.strongly .red) "✗"]
    throw e
  printLine ([.text (.strongly .green) "✓", .raw " "] ++
    if verbose then [.raw "(", .elapsed .plain, .raw ")"] else [])

/-! ## Commands -/

def formatStep (verbose : Bool) : Job Unit := step verbose "Format Check" (formatCall true)

def lintStep (verbose : Bool) : Job Unit := step verbose "Clippy" (lintCall false)

def buildStep (verbose : Bool) : Job Unit := step verbose "Build" (buildCall false)

def testStep (verbose : Bool) : Job Unit := step verbose "Test" (testCall [] false)

def ci (verbose : Bool) : Job Unit := do
  printLine [heading "Running CI Pipeline"]
  formatStep verbose
  lintStep verbose
  buildStep verbose
  testStep verbose
  passed "CI"

def check (verbose : Bool) : Job Unit := do
  printLine [heading "Running Quick Checks"]
  formatStep verbose
  lintStep verbose
  passed "Checks"

def preCommit : Job Unit := do
  printLine [heading "Pre-commit Checks"]
  formatStep false
  lintStep false
  testStep false
  passed "Pre-commit checks"

def testComponent (ignored : Bool) (c : Component) : Job Unit := do
  printLine [arrow, .raw " Running ", .text .strong c.title, .raw " tests..."]
  try tool (testCall ["--lib", c.path] ignored)
  catch e =>
    printLine [.text (.coloured .red) "✗", .raw (" " ++ c.title ++ " tests failed\n")]
    throw e
  printLine [.text (.coloured .green) "✓", .raw (" " ++ c.title ++ " tests passed\n")]

/-- Tests components one after the other, whether or not those before have failed; answers with
whether all have passed. -/
def testComponents (ignored : Bool) : List Component → Job Bool
  | [] => return true
  | c :: cs => do
    let passed ← try
      testComponent ignored c
      pure true
    catch _ => pure false
    let rest ← testComponents ignored cs
    return passed && rest

/-- Runs tests.  The tests in the documentation take precedence over those of components, and the
tests of one component alone fail with their own error. -/
def test (p : TestPlan) : Job Unit := do
  if p.doc then tool (testCall ["--doc"] p.ignored)
  else
    match p.components with
    | [] => tool (testCall [] p.ignored)
    | [c] => testComponent p.ignored c
    | cs =>
      let passed ← testComponents p.ignored cs
      unless passed do throw .testsFailed

def run (p : RunPlan) : Job Unit := do
  printLine [heading "Program Run"]
  unless ((← get).files.lookup p.image).isSome do
    printLine [.text (.strongly .red) "✗", .raw " Program image not found: ",
      .text (.coloured .yellow) p.image]
    throw .imageNotFound
  printLine [.text (.coloured .green) "✓", .raw " Image: ", .text (.coloured .cyan) p.image]
  printLine [arrow, .raw " Instructions: ", .text .strong (Numeral.decimal p.instructions)]
  if let some config := p.config then
    printLine [arrow, .raw " Config: ", .text (.coloured .cyan) config]
  printLine [arrow, .raw " Build mode: ",
    if p.release then .text (.strongly .green) "release" else .text (.strongly .yellow) "debug"]
  printLine []
  let code ← call (runCall p)
  if code ≠ 0 then
    printLine [.raw "\n", .text (.strongly .red) "✗", .raw " Program run failed"]
    throw (.programFailed code)
  printLine [.raw "\n", .text (.strongly .green) "✓", .raw " Program run completed in ",
    .elapsed .strong]

def hookFile : String := ".git/hooks/pre-commit"

def hookText : String :=
  "#!/bin/sh\n# Auto-generated by cargo x install-hooks\nset -e\n\n" ++
    "echo \"Running pre-commit checks...\"\ncargo x pre-commit\n"

def installHooks : Job Unit := do
  printLine [.text .strong "Installing git hooks..."]
  let w ← get
  match w.files.target hookFile with
  | .error e => throw (.refused e)
  | .ok path =>
    set { w with files := (w.files.write path hookText.toUTF8).makeExecutable path }
  printLine [.text (.coloured .green) "✓ Git hooks installed"]
  printLine [.raw "  Pre-commit hook will run: fmt, clippy, test"]

def perform : Command → Job Unit
  | .ci verbose => ci verbose
  | .check verbose => check verbose
  | .format check => tool (formatCall check)
  | .lint fix => tool (lintCall fix)
  | .build release => tool (buildCall release)
  | .test plan => test plan
  | .bench => tool ["bench"]
  | .run plan => run plan
  | .preCommit => preCommit
  | .installHooks => installHooks

/-! ## The tool as a whole -/

structure Report where
  /-- Why the job failed, if it did. -/
  error : Option JobError := none
  /-- Whether the command line was understood. -/
  understood : Bool := true
  workshop : Workshop

def Report.exit (r : Report) : Nat :=
  if !r.understood then 2 else if r.error.isSome then 1 else 0

def Report.text (r : Report) (styled : Bool) (time : String) : String :=
  String.join (r.workshop.output.toList.map (Piece.write styled time))

def Report.of (args : List String) (w : Workshop) : Report :=
  match Command.read? args with
  | none => { understood := false, workshop := w }
  | some command =>
    match (perform command).run w with
    | (.ok _, workshop) => { workshop }
    | (.error e, workshop) => { error := some e, workshop }

end Mips.Tasks
