/-!
# Printable text

Text without the characters that a terminal does not show: control sequences, and all control
characters that are not white space.
-/

namespace Mips

namespace Printable

/-- Where a reader stands among the control sequences of a text. -/
inductive Mode where
  | text
  /-- After an escape character, or after more of the start of a sequence. -/
  | escape (more : Bool)
  /-- In a sequence that a letter ends. -/
  | sequence
  /-- In a string for the terminal, which a bell may end. -/
  | string (bell : Bool)
  deriving DecidableEq, Repr

def Mode.next : Mode → Char → Mode
  | .text, _ => .text
  | .escape more, c =>
    if c.toNat < 0x30 then .escape true
    else if more then .text
    else if c = '[' then .sequence
    else if c = ']' then .string true
    else if c ∈ ['P', 'X', '^', '_'] then .string false
    else .text
  | .sequence, c => if c.toNat < 0x40 then .sequence else .text
  | .string bell, _ => .string bell

def isShown (c : Char) : Bool := 0x20 ≤ c.toNat && c ≠ '\x7f'

/-- The mode after a character, and whether the character is shown.  White space other than a blank
ends a sequence, but not a string. -/
def step (m : Mode) (c : Char) : Mode × Bool :=
  if c = '\x1b' then (.escape false, false)
  else if c = '\x18' ∨ c = '\x1a' then (.text, false)
  else
    match m with
    | .string bell => (if bell ∧ c = '\x07' then .text else m, false)
    | m =>
      if c ∈ ['\t', '\n', '\x0c', '\r'] then (.text, true)
      else if !isShown c || (m ≠ .text && 0x7F < c.toNat) then (m, false)
      else (m.next c, m = .text)

def shown (m : Mode) : List Char → List Char
  | [] => []
  | c :: cs =>
    match step m c with
    | (m, true) => c :: shown m cs
    | (m, false) => shown m cs

def ofText (s : String) : String := String.ofList (shown .text s.toList)

/-- Text without control characters stays as it is. -/
theorem shown_eq_self (cs : List Char) (h : ∀ c ∈ cs, isShown c) : shown .text cs = cs := by
  induction cs with
  | nil => rfl
  | cons c cs ih =>
    have hc : isShown c := h c (.head _)
    have hstep : step .text c = (.text, true) := by
      have ne (d : Char) (hd : isShown d = false) : c ≠ d := by
        rintro rfl
        simp [hc] at hd
      simp [step, ne '\x1b' rfl, ne '\x18' rfl, ne '\x1a' rfl, hc, Mode.next]
    simp [shown, hstep, ih fun d hd => h d (.tail _ hd)]

end Printable

end Mips
