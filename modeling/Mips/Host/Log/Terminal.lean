import Mips.Host.Environment
import Mips.Host.Log
import Mips.Text.Printable
import Mips.Text.Styled
/-!
# Logs on the terminal

How the entries of a log are shown to the operator: with styles or as printable text, with the
later lines of a message indented.
-/

namespace Mips

def Level.style : Level → Style
  | error => .strongly .red
  | warn => .coloured .yellow
  | info => .coloured .green
  | debug => .coloured .blue
  | trace => .coloured .cyan

namespace LogEntry

def indented (message : String) : String := "\n    ".intercalate (message.splitOn "\n")

def write (styled : Bool) (e : LogEntry) : String :=
  if styled then e.level.style.wrap e.level.name ++ " " ++ indented e.message
  else Printable.ofText (e.level.name ++ " " ++ indented e.message)

end LogEntry

namespace Log

def styleVariable : String := "RUST_LOG_STYLE"

/-- The variable that takes away styles, whatever its value. -/
def plainVariable : String := "NO_COLOR"

def styledVariable : String := "CLICOLOR_FORCE"

/-- Whether messages have styles on a terminal that does not ask for them. -/
def isStyled (values : Variables) : Bool :=
  let value (name : String) : List Char := (values.lookup name.toList).getD []
  let style := String.ofList (value styleVariable)
  style = "always" || (style ≠ "never" && value plainVariable = [] && value styledVariable ≠ [])

end Log

end Mips
