/-!
# Styled text

Text for a terminal, in pieces that may be bold and coloured.  It can be written with the control
sequences for the styles or without them.  Some pieces stand for the time that something took,
which only the one who writes the text can say.
-/

namespace Mips

inductive Colour where
  | red | green | yellow | blue | cyan
  deriving DecidableEq, Repr

def Colour.code : Colour → String
  | red => "31"
  | green => "32"
  | yellow => "33"
  | blue => "34"
  | cyan => "36"

structure Style where
  bold : Bool := false
  colour : Option Colour := none
  deriving DecidableEq, Repr

namespace Style

def plain : Style := {}

def strong : Style := { bold := true }

def coloured (c : Colour) : Style := { colour := some c }

def strongly (c : Colour) : Style := { bold := true, colour := some c }

def codes (s : Style) : List String :=
  (if s.bold then ["1"] else []) ++ (s.colour.map Colour.code).toList

def reset : String := "\x1b[0m"

/-- A text with `start` behind each control sequence in it that turns all styles off. -/
def restarted (start : List Char) : List Char → List Char
  | [] => []
  | '\x1b' :: '[' :: '0' :: 'm' :: cs => reset.toList ++ start ++ restarted start cs
  | c :: cs => c :: restarted start cs

/-- Text in a style, between the control sequences that turn it on and off.  Where the text itself
turns the styles off, the style is turned on again. -/
def wrap (s : Style) (text : String) : String :=
  match s.codes with
  | [] => text
  | codes =>
    let start := "\x1b[" ++ ";".intercalate codes ++ "m"
    start ++ String.ofList (restarted start.toList text.toList) ++ reset

end Style

inductive Piece where
  | text (style : Style) (s : String)
  /-- The time that something took. -/
  | elapsed (style : Style)
  deriving DecidableEq, Repr

namespace Piece

def raw (s : String) : Piece := .text .plain s

/-- A piece as it is written, with styles or without, where `time` is what something took. -/
def write (styled : Bool) (time : String) : Piece → String
  | .text style s => if styled then style.wrap s else s
  | .elapsed style => if styled then style.wrap time else time

end Piece

end Mips
