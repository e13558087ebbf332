/-!
# Register names

General registers and control registers are both numbered from 0 to 31; each numbering has its
own names.
-/

namespace Mips

abbrev Reg := Fin 32

abbrev ControlReg := Fin 32

namespace Reg

def zero : Reg := 0

def v0 : Reg := 2

def v1 : Reg := 3

def a0 : Reg := 4

/-- The register that linking branches without a destination field write. -/
def ra : Reg := 31

def names : Vector String 32 := #v[
  "r0", "at", "v0", "v1", "a0", "a1", "a2", "a3",
  "t0", "t1", "t2", "t3", "t4", "t5", "t6", "t7",
  "s0", "s1", "s2", "s3", "s4", "s5", "s6", "s7",
  "t8", "t9", "k0", "k1", "gp", "sp", "s8", "ra"]

def name (r : Reg) : String := names.get r

def ofNat? (n : Nat) : Option Reg := if h : n < 32 then some ⟨n, h⟩ else none

def all : List Reg := List.finRange 32

end Reg

namespace ControlReg

def badVAddr : ControlReg := 8
def status : ControlReg := 12
def cause : ControlReg := 13
def epc : ControlReg := 14
def prid : ControlReg := 15

/-- The names of the control registers; a register without a function is called by its number. -/
def names : Vector String 32 := #v[
  "Index", "Random", "EntryLo0", "EntryLo1", "Context", "PageMask", "Wired", "r7",
  "BadVAddr", "Count", "EntryHi", "Compare", "SR", "Cause", "EPC", "PRId",
  "Config", "LLAddr", "WatchLo", "WatchHi", "r20", "r21", "r22", "r23",
  "r24", "r25", "ECC", "CacheErr", "TagLo", "TagHi", "ErrorEPC", "r31"]

def name (r : ControlReg) : String := names.get r

def assigned : List ControlReg :=
  (List.finRange 32).filter fun r => name r != s!"r{r.val}"

end ControlReg

end Mips
