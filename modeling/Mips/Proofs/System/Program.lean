import Mips.Proofs.Machine.Line
import Mips.Proofs.System.Start
import Mips.Proofs.System.Tracing
/-!
# Loaded programs

A system that loads a row of instructions on registers, and is pointed at its first word, executes
it word by word.  Nothing of what the system went through before has a part in it but the contents
of its registers.
-/

namespace Mips.System

variable {δ : Type} [DisplayRefresh δ]

theorem machine_run (s : System δ) (n : Nat) :
    (s.run n).1 = s.board.machine.retiredSince (s.board.machine.run n) ∧
      (s.run n).2.board.machine = s.board.machine.run n := by
  simp only [System.run, Board.run_eq]
  exact ⟨trivial, rfl⟩

theorem machine_loadProgram (s : System δ) {a : Word} {program : List Word}
    (hfits : Ram.offset a + 4 * program.length ≤ Ram.size) :
    (s.serve (.loadProgram a program)).1 = .memory .done ∧
      (s.serve (.loadProgram a program)).2.board.machine =
        ⟨s.board.cpu, s.board.ram.place (Ram.offset a) (Ram.image program)⟩ := by
  rw [← Ram.size_image] at hfits
  simp only [serve, Board.loadProgram, Board.load, s.board.ram.load_of_fits hfits]
  exact ⟨rfl, rfl⟩

/-- A program of instructions on registers that fits into memory is loaded, and a run of its first
`n` words retires all of them.  It leaves the loaded memory as it is, ends behind the last of these
words without a branch to be made, and has made of the registers what the words make of them one
after the other. -/
theorem loaded_line_runs (s : System δ) {a : Word} {program : List Word} {n : Nat}
    (haligned : a.Aligned) (hfits : Ram.offset a + 4 * program.length ≤ Ram.size)
    (hline : ∀ w ∈ program, (Opcode.decode w).onRegisters = true) (hn : n ≤ program.length) :
    let loaded := s.serve (.loadProgram a program)
    let placed := (loaded.2.serve (.set (.setPc a))).2
    let final := (placed.run n).2
    loaded.1 = .memory .done ∧ loaded.2.board.ram.Carries a program ∧
      (placed.run n).1 = n ∧
      final.board.cpu.halted = false ∧ final.board.cpu.haltReason = none ∧
      final.board.ram = loaded.2.board.ram ∧
      final.board.cpu.pc.toNat = a.toNat + 4 * n ∧ final.board.cpu.pending = none ∧
      final.board.cpu.registers = (program.take n).foldl Registers.next s.board.cpu.registers := by
  intro loaded placed final
  obtain ⟨hreply, hloaded⟩ := s.machine_loadProgram hfits
  obtain ⟨hretired, hfinal⟩ := placed.machine_run n
  have hram : loaded.2.board.ram = s.board.ram.place (Ram.offset a) (Ram.image program) :=
    congrArg Machine.memory hloaded
  have hcpu : loaded.2.board.cpu = s.board.cpu := congrArg Machine.cpu hloaded
  have hcarries : loaded.2.board.ram.Carries a program := by
    rw [hram]
    exact Ram.carries_place _ haligned hfits
  have hsize : Ram.size = 2 ^ 23 := rfl
  obtain ⟨m, hdrive, hpassed⟩ :=
    Machine.drive_line (m := placed.board.machine.resume) hcarries rfl hn
      fun w hw => hline w (List.mem_of_mem_take hw)
  have hrun := Machine.run_of_drive hdrive
  rw [hrun] at hretired hfinal
  obtain rfl : final.board.machine = m := hfinal
  have hfresh : final.board.cpu.Fresh := by
    have hdriven := Machine.fresh_drive (m := placed.board.machine.resume) ⟨rfl, rfl⟩ n
    rw [hdrive] at hdriven
    exact hdriven
  have hpc : final.board.cpu.pc = a + .ofNat 32 (4 * n) :=
    congrArg Sequencer.pc hpassed.sequencer
  refine ⟨hreply, hcarries, ?_, hfresh.1, hfresh.2, hpassed.memory, ?_, ?_, ?_⟩
  · have hcount := Machine.retired_drive hdrive
    rw [hretired]
    exact Machine.retiredSince_eq (by omega) hcount
  · rw [hpc, hcarries.toNat_add hn]
  · exact congrArg Sequencer.pending hpassed.sequencer
  · rw [← hcpu]
    exact hpassed.registers

/-- After a run that a fault has ended in the slot of a jump: the product of the least and of the
greatest word, of which the upper half goes to a control register. -/
theorem productProgram_runs :
    let program : List Word := [0x3C028000, 0x2443FFFF, 0x00430018, 0x00002010, 0x40846000, 0]
    let s := System.after ({} : System) [.inr (.loadProgram 0 [0x08000002, 0x0000000D]), .inr (.run 5)]
    let loaded := s.serve (.loadProgram 0xA0000100 program)
    let placed := (loaded.2.serve (.set (.setPc 0xA0000100))).2
    let final := (placed.run 5).2
    (s.board.cpu.pending = some 8 ∧ s.board.cpu.halted = true) ∧
    Word.Aligned 0xA0000100 ∧ Ram.offset 0xA0000100 + 4 * program.length ≤ Ram.size ∧
    (∀ w ∈ program, (Opcode.decode w).onRegisters = true) ∧
    (placed.run 5).1 = 5 ∧ final.board.cpu.halted = false ∧ final.board.cpu.pending = none ∧
    final.board.cpu.pc.toNat = 0xA0000114 ∧
    final.board.cpu.registers.control ControlReg.status = 0xC0000000 := by
  intro program s loaded placed final
  have haligned : Word.Aligned 0xA0000100 := by decide
  have hfits : Ram.offset 0xA0000100 + 4 * program.length ≤ Ram.size := by decide
  have hline : ∀ w ∈ program, (Opcode.decode w).onRegisters = true :=
    List.all_eq_true.mp rfl
  obtain ⟨-, -, hretired, hhalted, -, -, hpc, hpending, hregisters⟩ :=
    loaded_line_runs s (n := 5) haligned hfits hline (by decide)
  have hfinal : final.board.cpu.registers =
      (program.take 5).foldl Registers.next s.board.cpu.registers := hregisters
  refine ⟨⟨by decide, by decide⟩, haligned, hfits, hline, hretired, hhalted, hpending, hpc, ?_⟩
  rw [hfinal]
  decide

end Mips.System
