import Mips.Text.Regex
/-!
# Log

Messages for the operator, each at a level and from one source.  A log records the messages of a
source up to a level; a message above that level is not even written.  Of the messages that are
written it can drop those that do not fit a pattern.
-/

namespace Mips

inductive Level where
  | error | warn | info | debug | trace
  deriving DecidableEq, Repr

namespace Level

def all : List Level := [error, warn, info, debug, trace]

def rank : Level → Nat
  | error => 1
  | warn => 2
  | info => 3
  | debug => 4
  | trace => 5

def name : Level → String
  | error => "ERROR"
  | warn => "WARN"
  | info => "INFO"
  | debug => "DEBUG"
  | trace => "TRACE"

def ofName? (s : String) : Option Level := all.find? fun l => l.name == s.map Char.toUpper

end Level

inductive LogSource where
  | program
  | config
  | system
  | memory
  | processor
  /-- Moves to the control registers of the processor. -/
  | controlMove
  deriving DecidableEq, Repr

/-- The name of a source, which starts with the names of the parts around it. -/
def LogSource.name : LogSource → String
  | program => "vr4300"
  | config => "vr4300::core::config"
  | system => "vr4300::core::system"
  | memory => "vr4300::core::memory"
  | processor => "vr4300::core::cpu"
  | controlMove => "vr4300::core::cpu::instructions::cop0"

/-- The highest level that is recorded of each source; without one nothing is recorded. -/
structure LogLimits where
  program : Option Level
  config : Option Level
  system : Option Level
  memory : Option Level
  processor : Option Level
  controlMove : Option Level
  deriving DecidableEq, Repr

namespace LogLimits

def ofSource (limit : LogSource → Option Level) : LogLimits where
  program := limit .program
  config := limit .config
  system := limit .system
  memory := limit .memory
  processor := limit .processor
  controlMove := limit .controlMove

def uniform (limit : Option Level) : LogLimits := ofSource fun _ => limit

def get (l : LogLimits) : LogSource → Option Level
  | .program => l.program
  | .config => l.config
  | .system => l.system
  | .memory => l.memory
  | .processor => l.processor
  | .controlMove => l.controlMove

@[simp] theorem get_ofSource (limit : LogSource → Option Level) (s : LogSource) :
    (ofSource limit).get s = limit s := by
  cases s <;> rfl

end LogLimits

structure LogEntry where
  level : Level
  message : String
  deriving DecidableEq, Repr

def LogEntry.text (e : LogEntry) : String := e.level.name ++ " " ++ e.message

structure Log where
  limits : LogLimits := .uniform none
  /-- What a message has to fit in order to be recorded. -/
  pattern : Option Regex := none
  entries : Array LogEntry := #[]
  deriving DecidableEq, Repr

namespace Log

def records (log : Log) (source : LogSource) (level : Level) : Bool :=
  match log.limits.get source with
  | some limit => level.rank ≤ limit.rank
  | none => false

def push (log : Log) (e : LogEntry) : Log :=
  if log.pattern.all (·.fits e.message) then { log with entries := log.entries.push e } else log

def add (log : Log) (source : LogSource) (level : Level) (message : Unit → String) : Log :=
  if log.records source level then log.push ⟨level, message ()⟩ else log

def clear (log : Log) : Log := { log with entries := #[] }

end Log

end Mips
