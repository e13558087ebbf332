import Mips.Proofs.Instruction.Assembly
import Mips.Trace.Tracer
/-!
# Trace lines read back

The numbers in a trace line stand in fixed columns or behind an equals sign, and neither assembly
text nor a register name contains a character that could be taken for the end of a part.  So
`TraceEntry.read?` gets back from a line what was written into it, and from a text of lines, lines
being divided at line breaks, all of its entries in their order.
-/

namespace Mips

open Numeral

structure TraceEntry where
  pc : Word
  word : Word
  assembly : String
  values : List DWord
  deriving DecidableEq

namespace TraceEntry

/-- The entry for the word `w` in the state before its execution. -/
def ofCpu (watched : List Reg) (c : Cpu) (w : Word) : TraceEntry where
  pc := c.pc
  word := w
  assembly := padRight 30 (disassemble w c.pc)
  values := watched.map c.reg

/-- Reads a line, given without its line break. -/
def read? (line : List Char) : Option TraceEntry := do
  let pc ← ofDigits? 16 ((line.drop 5).take 8)
  let word ← ofDigits? 16 ((line.drop 17).take 8)
  let assembly := (line.takeWhile (· ≠ '|')).drop 27
  let fields := ((line.dropWhile (· ≠ '|')).splitOn '=').tail
  let values ← fields.mapM fun field => ofDigits? 16 (field.take 16)
  return {
    pc := .ofNat 32 pc
    word := .ofNat 32 word
    assembly := .ofList assembly.dropLast
    values := values.map (.ofNat 64) }

/-! ## The parts of a line -/

def front (c : Cpu) (w : Word) : List Char :=
  ['P', 'C', '=', '0', 'x'] ++ (hexDigits 8 c.pc.toNat ++
    ([' ', '[', '0', 'x'] ++ (hexDigits 8 w.toNat ++
      ([']', ' '] ++ ((padRight 30 (disassemble w c.pc)).toList ++ [' '])))))

def fields (c : Cpu) (watched : List Reg) : List Char :=
  watched.flatMap fun r => ' ' :: r.name.toList ++ '=' :: hexDigits 16 (c.reg r).toNat

theorem toList_traceLine (watched : List Reg) (c : Cpu) (w : Word) :
    (traceLine watched c w).toList = front c w ++ '|' :: fields c watched ++ ['\n'] := by
  have hfields : (String.join (watched.map fun r =>
      " " ++ r.name ++ "=" ++ hex 16 (c.reg r).toNat)).toList = fields c watched := by
    rw [String.toList_join, List.flatMap_map]
    simp [fields, hex]
  simp [traceLine, hfields, front, toList_hex32]

theorem mem_front {c : Cpu} {w : Word} {ch : Char} (hch : ch ∈ front c w) :
    Operand.isPart ch = true ∨ ch ∈ [',', ' ', '=', '[', ']'] := by
  have hparts : ch ∈ ['P', 'C', '=', '0', 'x', ' ', '[', ']'] ∨ ch ∈ hexDigits 8 c.pc.toNat ∨
      ch ∈ hexDigits 8 w.toNat ∨ ch ∈ (disassemble w c.pc).toList := by
    simp only [front, padRight, String.toList_append, String.toList_ofList, List.mem_append,
      List.mem_replicate] at hch
    grind
  obtain hfixed | hdigit | hdigit | htext := hparts
  · have hall : ['P', 'C', '=', '0', 'x', ' ', '[', ']'].all (fun ch =>
        Operand.isPart ch || [',', ' ', '=', '[', ']'].contains ch) = true := by decide
    simpa using List.all_eq_true.mp hall ch hfixed
  · exact .inl (Operand.isPart_of_isAlphanum (isAlphanum_of_mem_hexDigits hdigit))
  · exact .inl (Operand.isPart_of_isAlphanum (isAlphanum_of_mem_hexDigits hdigit))
  · obtain hpart | hcomma | hblank := Assembly.mem_disassemble htext
    · exact .inl hpart
    · simp [hcomma]
    · simp [hblank]

theorem mem_fields {c : Cpu} {watched : List Reg} {ch : Char} (hch : ch ∈ fields c watched) :
    ch.isAlphanum = true ∨ ch ∈ [' ', '='] := by
  obtain ⟨r, -, hch⟩ := List.mem_flatMap.mp hch
  rw [List.mem_append, List.mem_cons, List.mem_cons] at hch
  obtain (hblank | hname) | hequals | hdigit := hch
  · simp [hblank]
  · exact .inl (Reg.isAlphanum_of_mem_name hname)
  · simp [hequals]
  · exact .inl (isAlphanum_of_mem_hexDigits hdigit)

theorem bar_notMem_front (c : Cpu) (w : Word) : '|' ∉ front c w := fun h =>
  absurd (mem_front h) (by decide)

theorem break_notMem (watched : List Reg) (c : Cpu) (w : Word) :
    '\n' ∉ front c w ++ '|' :: fields c watched := by
  intro h
  obtain h | h := List.mem_append.mp h
  · exact absurd (mem_front h) (by decide)
  · obtain h | h := List.mem_cons.mp h
    · exact absurd h (by decide)
    · exact absurd (mem_fields h) (by decide)

/-! ## Reading -/

theorem read_fields (c : Cpu) (watched : List Reg) {before : List Char} (hbefore : '=' ∉ before) :
    ∃ name parts, (before ++ fields c watched).splitOn '=' = (before ++ name) :: parts ∧
      parts.mapM (fun part => ofDigits? 16 (part.take 16)) =
        some (watched.map fun r => (c.reg r).toNat) := by
  induction watched generalizing before with
  | nil => exact ⟨[], [], by simpa [fields] using List.splitOn_eq_singleton hbefore, rfl⟩
  | cons r rs ih =>
    have hdigits : '=' ∉ hexDigits 16 (c.reg r).toNat := fun h =>
      absurd (isAlphanum_of_mem_hexDigits h) (by decide)
    have hname : '=' ∉ r.name.toList := fun h =>
      absurd (Reg.isAlphanum_of_mem_name h) (by decide)
    have hsplit : '=' ∉ before ++ ' ' :: r.name.toList := by
      simp [hbefore, hname]
    obtain ⟨name, parts, hrest, hread⟩ := ih hdigits
    refine ⟨' ' :: r.name.toList, (hexDigits 16 (c.reg r).toNat ++ name) :: parts, ?_, ?_⟩
    · rw [← hrest, ← List.splitOn_append_cons_self_of_not_mem hsplit]
      simp [fields]
    · rw [List.mapM_cons, hread, take_hexDigits, ofDigits?_hexDigits_toNat 16 rfl]
      rfl

/-- The columns of the word and of all that follows it. -/
theorem drop_front (c : Cpu) (w : Word) (rest : List Char) (k : Nat) :
    (front c w ++ rest).drop (17 + k) =
      (hexDigits 8 w.toNat ++ ([']', ' '] ++ ((padRight 30 (disassemble w c.pc)).toList ++
        ([' '] ++ rest)))).drop k := by
  have hpc (k : Nat) (columns : List Char) :
      (['P', 'C', '=', '0', 'x'] ++ (hexDigits 8 c.pc.toNat ++ columns)).drop (13 + k) =
        columns.drop k := by
    rw [show 13 + k = 8 + k + 5 by omega]
    exact drop_hexDigits 8 _ k columns
  simp only [front, List.append_assoc]
  rw [show 17 + k = 13 + (4 + k) by omega, hpc, Nat.add_comm]
  rfl

theorem read?_line (watched : List Reg) (c : Cpu) (w : Word) :
    read? (front c w ++ '|' :: fields c watched) = some (ofCpu watched c w) := by
  have hbar : ∀ ch ∈ front c w, decide (ch ≠ '|') = true := fun ch hch =>
    decide_eq_true fun hbar => bar_notMem_front c w (hbar ▸ hch)
  have hpc : ((front c w ++ '|' :: fields c watched).drop 5).take 8 =
      hexDigits 8 c.pc.toNat := by
    simp only [front, List.append_assoc]
    exact take_hexDigits 8 _ _
  have hword : ((front c w ++ '|' :: fields c watched).drop 17).take 8 =
      hexDigits 8 w.toNat := by
    rw [drop_front c w _ 0]
    exact take_hexDigits 8 _ _
  have hassembly : (front c w).drop 27 = (padRight 30 (disassemble w c.pc)).toList ++ [' '] := by
    have hdrop := drop_front c w [] 10
    rw [List.append_nil] at hdrop
    rw [hdrop]
    exact drop_hexDigits 8 _ 2 _
  have hfields : '=' ∉ ['|'] := by decide
  obtain ⟨name, parts, hsplit, hread⟩ := read_fields c watched hfields
  have hnarrow : (watched.map fun r => (c.reg r).toNat).map (BitVec.ofNat 64) =
      watched.map c.reg := by
    simp [Function.comp_def]
  have htake : (front c w ++ '|' :: fields c watched).takeWhile (· ≠ '|') = front c w := by
    rw [List.takeWhile_append_of_pos hbar]
    exact List.append_nil _
  have hdrop : (front c w ++ '|' :: fields c watched).dropWhile (· ≠ '|') =
      ['|'] ++ fields c watched := List.dropWhile_append_of_pos hbar
  unfold read?
  dsimp only
  rw [hpc, hword, htake, hdrop, hsplit, List.tail_cons, hread, ofDigits?_hexDigits_toNat 8 rfl,
    ofDigits?_hexDigits_toNat 8 rfl, hassembly, Option.bind_eq_bind, Option.bind_some]
  simp [ofCpu, hnarrow]

/-- The lines of a trace, divided at line breaks, are read back one by one. -/
theorem read?_lines (watched : List Reg) (told : List (Cpu × Word)) :
    ((String.join (told.map fun (c, w) => traceLine watched c w)).toList.splitOn '\n').dropLast.map
        read? =
      told.map fun (c, w) => some (ofCpu watched c w) := by
  induction told with
  | nil => rfl
  | cons entry told ih =>
    obtain ⟨c, w⟩ := entry
    have hlines : (String.join (((c, w) :: told).map fun (c, w) => traceLine watched c w)).toList =
        (front c w ++ '|' :: fields c watched) ++
          '\n' :: (String.join (told.map fun (c, w) => traceLine watched c w)).toList := by
      simp [toList_traceLine]
    rw [hlines, List.splitOn_append_cons_self_of_not_mem (break_notMem watched c w),
      List.dropLast_cons_of_ne_nil (List.splitOn_ne_nil _ _), List.map_cons, read?_line, ih,
      List.map_cons]

end TraceEntry

end Mips
