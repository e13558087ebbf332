import Mips.Proofs.Machine.Footprint
import Mips.Proofs.Machine.Mirror
/-!
# Stored and loaded again

A byte of main memory keeps what an instruction has stored there until another instruction stores to
it.  A load that reaches it later, through whatever segment, delivers the stored byte, or the word
that it makes up with its neighbours.
-/

namespace Mips

/-! ## Accesses that are not refused -/

namespace Ram

variable {a : Word}

theorem refusal?_eq_none_iff {n : Nat} :
    refusal? n a = none ↔ a.toNat % n = 0 ∧ offset a + n ≤ size := by
  unfold refusal?
  by_cases haligned : a.toNat % n = 0
  · rw [if_neg (Decidable.not_not.mpr haligned)]
    by_cases hfits : size < offset a + n
    · simp [hfits]
    · simp [hfits, haligned, Nat.le_of_not_lt hfits]
  · simp [haligned]

theorem located_of_refusal {n : Nat} (hgranted : refusal? n a = none) :
    located n a = .ok (offset a) := by
  rw [located, hgranted]

theorem read8_of_refusal (r : Ram) (hgranted : refusal? 1 a = none) :
    Memory.read8 r a = (.ok (r.byteAt (offset a)), r) := by
  change (r.read8 a, r) = _
  rw [read8_eq, located_of_refusal hgranted]
  rfl

theorem read32_of_refusal (r : Ram) (hgranted : refusal? 4 a = none) :
    Memory.read32 r a = (.ok (r.wordAt (offset a)), r) := by
  change (r.read32 a, r) = _
  rw [read32_eq, located_of_refusal hgranted]
  rfl

theorem write8_of_refusal (r : Ram) (b : Byte) (hgranted : refusal? 1 a = none) :
    Memory.write8 r a b = (.ok (), r.setByte (offset a) b) := by
  have hwrite : r.write8 a b = .ok (r.setByte (offset a) b) := by
    rw [write8, byteOffset_eq, located_of_refusal hgranted]
    rfl
  simp only [Memory.write8, hwrite]

theorem write32_of_refusal (r : Ram) (w : Word) (hgranted : refusal? 4 a = none) :
    Memory.write32 r a w = (.ok (), r.setWord (offset a) w) := by
  have hwrite : r.write32 a w = .ok (r.setWord (offset a) w) := by
    rw [write32, wordOffset_eq, located_of_refusal hgranted]
    rfl
  simp only [Memory.write32, hwrite]

/-- The bytes of an aligned word lie side by side, in whatever segment they are looked for. -/
theorem offset_add_of_aligned (haligned : a.Aligned) {k : Nat} (hk : k < 4) :
    offset (a + .ofNat 32 k) = offset a + k := by
  have h4 : a.toNat % 4 = 0 := haligned
  have hsum : (a + .ofNat 32 k).toNat = (a.toNat + k) % 2 ^ 32 := by
    rw [BitVec.toNat_add, BitVec.toNat_ofNat, Nat.add_mod_mod]
  rw [offset_eq_mod, offset_eq_mod, hsum]
  omega

end Ram

namespace Machine

/-! ## Stores -/

/-- Once an instruction has been fetched, only its own refusal is left. -/
theorem step_fst_of_fetch {m : Machine Ram} {w : Word} (hfetch : m.fetch.1 = .ok w) :
    m.step.1 = m.cpu.refusal? w := by
  rw [fetch_eq, Ram.located] at hfetch
  rw [step_fst, fault?]
  cases hrefusal : Ram.refusal? 4 m.cpu.pc with
  | some f =>
    rw [hrefusal] at hfetch
    cases hfetch
  | none =>
    rw [hrefusal] at hfetch
    cases hfetch
    rfl

theorem step_memory_of_retires {m : Machine Ram} {w : Word} (hfetch : m.fetch.1 = .ok w)
    (hretires : m.step.1 = none) :
    m.step.2.memory = ((m.cpu.action w).perform (m.cpu.fetched w) m.memory).2 := by
  obtain ⟨w', memory, e, hfetch', hattempt, -⟩ :=
    exists_of_step_retires (Prod.ext hretires rfl : m.step = (none, m.step.2))
  obtain rfl : w' = w := by simpa [hfetch'] using hfetch
  obtain rfl : memory = m.memory := (congrArg Prod.snd hfetch').symm
  exact (congrArg Prod.snd hattempt).symm

/-- The access of an instruction that has retired was granted. -/
theorem refusal_action_of_retires {m : Machine Ram} {w : Word} (hfetch : m.fetch.1 = .ok w)
    (hretires : m.step.1 = none) : (m.cpu.action w).refusal? (m.cpu.fetched w) = none := by
  rw [Cpu.refusal?_action, ← step_fst_of_fetch hfetch]
  exact hretires

theorem byteAt_step_sb {m : Machine Ram} {w : Word} (hfetch : m.fetch.1 = .ok w)
    (hretires : m.step.1 = none) (hop : Opcode.decode w = .sb) :
    let i := Ram.offset (m.cpu.effectiveAddress w)
    i < Ram.size ∧ m.step.2.memory.byteAt i = (m.cpu.reg w.rt).setWidth 8 := by
  intro i
  have hgranted := refusal_action_of_retires hfetch hretires
  have haction : m.cpu.action w =
      .store8 (m.cpu.effectiveAddress w) ((m.cpu.reg w.rt).setWidth 8) := by
    simp only [Cpu.action, hop]
  rw [haction] at hgranted
  obtain ⟨-, hfits⟩ := Ram.refusal?_eq_none_iff.mp hgranted
  refine ⟨hfits, ?_⟩
  rw [step_memory_of_retires hfetch hretires, haction, Action.perform,
    Ram.write8_of_refusal _ _ hgranted]
  exact (Ram.byteAt_setByte _ _ hfits hfits).trans (if_pos rfl)

theorem byteAt_step_sw {m : Machine Ram} {w : Word} (hfetch : m.fetch.1 = .ok w)
    (hretires : m.step.1 = none) (hop : Opcode.decode w = .sw) :
    let a := m.cpu.effectiveAddress w
    a.Aligned ∧ Ram.offset a + 4 ≤ Ram.size ∧
      ∀ k < 4, m.step.2.memory.byteAt (Ram.offset a + k) = (m.cpu.word w.rt).byte k := by
  intro a
  have hgranted := refusal_action_of_retires hfetch hretires
  have haction : m.cpu.action w = .store32 a (m.cpu.word w.rt) := by
    simp only [Cpu.action, hop]
    rfl
  rw [haction] at hgranted
  obtain ⟨haligned, hfits⟩ := Ram.refusal?_eq_none_iff.mp hgranted
  refine ⟨haligned, hfits, fun k hk => ?_⟩
  rw [step_memory_of_retires hfetch hretires, haction, Action.perform,
    Ram.write32_of_refusal _ _ hgranted]
  change (Ram.setWord _ _ _).byteAt _ = _
  rw [Ram.byteAt_setWord _ _ (Ram.offset_mod_four haligned) (by omega) (by omega),
    if_pos (by omega), Nat.add_sub_cancel_left]

/-! ## Stores that stand -/

namespace Retirement

def bytes (r : Retirement Ram) : List Nat := (r.before.cpu.footprint r.word).bytes

def address (r : Retirement Ram) : Word := r.before.cpu.effectiveAddress r.word

def source (r : Retirement Ram) : DWord := r.before.cpu.reg r.word.rt

end Retirement

/-- The instruction `r` is one of the run, and none of those after it has stored to one of its
bytes. -/
def Stands (trace : List (Retirement Ram)) (r : Retirement Ram) : Prop :=
  ∃ earlier later, trace = earlier ++ r :: later ∧ ∀ q ∈ later, q.bytes.Disjoint r.bytes

theorem byteAt_step_of_not_mem {m m' : Machine Ram} {w : Word} (hfetch : m.fetch.1 = .ok w)
    (hstep : m.step = (none, m')) {i : Nat} (hi : i < Ram.size)
    (houtside : i ∉ (m.cpu.footprint w).bytes) : m'.memory.byteAt i = m.memory.byteAt i := by
  have hmemory := step_memory_of_retires hfetch (congrArg Prod.fst hstep)
  rw [hstep] at hmemory
  rw [hmemory]
  by_contra hbyte
  have hmem := Action.mem_bytes_of_perform hi hbyte
  obtain hidle | hfootprint := m.cpu.footprint_action w
  · rw [hidle] at hmem
    cases hmem
  · rw [hfootprint] at hmem
    exact houtside hmem

/-- A whole run, by induction on it. -/
theorem Retires.byteAt_eq {m m' : Machine Ram} {trace : List (Retirement Ram)}
    (hrun : Retires m trace m') {i : Nat} (hi : i < Ram.size)
    (houtside : ∀ r ∈ trace, i ∉ r.bytes) : m'.memory.byteAt i = m.memory.byteAt i := by
  induction hrun with
  | refl m => rfl
  | @next m m' m'' w trace hfetch hstep htail ih =>
    calc m''.memory.byteAt i
        = m'.memory.byteAt i := ih fun r hr => houtside r (List.mem_cons_of_mem _ hr)
      _ = m.memory.byteAt i :=
          byteAt_step_of_not_mem hfetch hstep hi (houtside ⟨m, w⟩ (List.mem_cons_self ..))

theorem Retires.split {μ : Type} [Memory μ] {m m' : Machine μ}
    {earlier later : List (Retirement μ)} {r : Retirement μ}
    (hrun : Retires m (earlier ++ r :: later) m') :
    r.before.fetch.1 = .ok r.word ∧ r.before.step.1 = none ∧
      Retires r.before.step.2 later m' := by
  induction earlier generalizing m with
  | nil =>
    cases hrun with
    | next hfetch hstep htail =>
      rw [hstep]
      exact ⟨hfetch, rfl, htail⟩
  | cons q earlier ih =>
    cases hrun with
    | next _ _ htail => exact ih htail

theorem Stands.byteAt_of_sb {m m' : Machine Ram} {trace : List (Retirement Ram)}
    {r : Retirement Ram} (hrun : Retires m trace m') (hstands : Stands trace r)
    (hop : Opcode.decode r.word = .sb) :
    Ram.offset r.address < Ram.size ∧
      m'.memory.byteAt (Ram.offset r.address) = r.source.setWidth 8 := by
  obtain ⟨earlier, later, rfl, hdisjoint⟩ := hstands
  obtain ⟨hfetch, hretires, hlater⟩ := hrun.split
  obtain ⟨hfits, hbyte⟩ := byteAt_step_sb hfetch hretires hop
  refine ⟨hfits, ?_⟩
  have hbytes : r.bytes = [Ram.offset r.address] := by
    simp only [Retirement.bytes, Cpu.footprint, hop]
    rfl
  have houtside : ∀ q ∈ later, Ram.offset r.address ∉ q.bytes := by
    intro q hq hmem
    apply hdisjoint q hq hmem
    rw [hbytes]
    exact List.mem_singleton_self _
  exact (hlater.byteAt_eq hfits houtside).trans hbyte

theorem Stands.byteAt_of_sw {m m' : Machine Ram} {trace : List (Retirement Ram)}
    {r : Retirement Ram} (hrun : Retires m trace m') (hstands : Stands trace r)
    (hop : Opcode.decode r.word = .sw) :
    r.address.Aligned ∧ Ram.offset r.address + 4 ≤ Ram.size ∧
      ∀ k < 4, m'.memory.byteAt (Ram.offset r.address + k) = r.source.lo.byte k := by
  obtain ⟨earlier, later, rfl, hdisjoint⟩ := hstands
  obtain ⟨hfetch, hretires, hlater⟩ := hrun.split
  obtain ⟨haligned, hfits, hbyte⟩ := byteAt_step_sw hfetch hretires hop
  refine ⟨haligned, hfits, fun k hk => ?_⟩
  have hbytes : r.bytes = [Ram.offset r.address, Ram.offset r.address + 1,
      Ram.offset r.address + 2, Ram.offset r.address + 3] := by
    simp only [Retirement.bytes, Cpu.footprint, hop]
    rfl
  have houtside : ∀ q ∈ later, Ram.offset r.address + k ∉ q.bytes := by
    intro q hq hmem
    apply hdisjoint q hq hmem
    rw [hbytes]
    simp only [List.mem_cons, List.not_mem_nil, or_false]
    omega
  have hi : Ram.offset r.address + k < Ram.size := by
    change Ram.offset r.address + 4 ≤ Ram.size at hfits
    omega
  exact (hlater.byteAt_eq hi houtside).trans (hbyte k hk)

/-! ## Loads -/

/-- The coming instruction retires and leaves `d` in the register `r`. -/
def Delivers (m : Machine Ram) (r : Reg) (d : DWord) : Prop :=
  m.step.1 = none ∧ m.step.2.cpu.reg r = d

theorem delivers_of_attempt {m : Machine Ram} {w : Word} {d : DWord}
    (hfetch : m.fetch.1 = .ok w) (hrt : w.rt ≠ 0)
    (hattempt : (m.attempt w m.memory).1 = .ok (.put w.rt d)) : m.Delivers w.rt d := by
  have hmemory : m.fetch.2 = m.memory := by rw [fetch_eq]
  have hstep := step_of_attempt_ok (Prod.ext hfetch hmemory : m.fetch = (.ok w, m.memory))
    (Prod.ext hattempt rfl)
  rw [Delivers, hstep]
  exact ⟨rfl, (Cpu.reg_retire_put m.cpu w w.rt w.rt d).trans (if_pos ⟨rfl, hrt⟩)⟩

theorem delivers_load8 {m : Machine Ram} {w : Word} {extend : Byte → DWord}
    (hfetch : m.fetch.1 = .ok w) (hrt : w.rt ≠ 0)
    (haction : m.cpu.action w = .load8 w.rt (m.cpu.effectiveAddress w) extend)
    (hfits : Ram.offset (m.cpu.effectiveAddress w) < Ram.size) :
    m.Delivers w.rt (extend (m.memory.byteAt (Ram.offset (m.cpu.effectiveAddress w)))) := by
  have hgranted := Ram.refusal?_eq_none_iff.mpr ⟨Nat.mod_one _, hfits⟩
  apply delivers_of_attempt hfetch hrt
  rw [attempt, haction, Action.perform, Ram.read8_of_refusal _ hgranted]
  rfl

theorem delivers_load32 {m : Machine Ram} {w : Word} {extend : Word → DWord}
    (hfetch : m.fetch.1 = .ok w) (hrt : w.rt ≠ 0)
    (haction : m.cpu.action w = .load32 w.rt (m.cpu.effectiveAddress w) extend)
    (haligned : (m.cpu.effectiveAddress w).Aligned)
    (hfits : Ram.offset (m.cpu.effectiveAddress w) + 4 ≤ Ram.size) :
    m.Delivers w.rt (extend (m.memory.wordAt (Ram.offset (m.cpu.effectiveAddress w)))) := by
  have hgranted := Ram.refusal?_eq_none_iff.mpr ⟨haligned, hfits⟩
  apply delivers_of_attempt hfetch hrt
  rw [attempt, haction, Action.perform, Ram.read32_of_refusal _ hgranted]
  rfl

section Load

variable {m : Machine Ram} {w : Word} (hfetch : m.fetch.1 = .ok w) (hrt : w.rt ≠ 0)
include hfetch hrt

/-- Both loads of a byte that is known. -/
theorem delivers_byte {b : Byte} {i : Nat} (hi : Ram.offset (m.cpu.effectiveAddress w) = i)
    (hfits : i < Ram.size) (hbyte : m.memory.byteAt i = b) :
    (Opcode.decode w = .lbu → m.Delivers w.rt (b.setWidth 64)) ∧
      (Opcode.decode w = .lb → m.Delivers w.rt (b.signExtend 64)) := by
  subst hi hbyte
  constructor <;> intro hop
  · exact delivers_load8 hfetch hrt (by simp only [Cpu.action, hop]) hfits
  · exact delivers_load8 hfetch hrt (by simp only [Cpu.action, hop]) hfits

/-- Both loads of a word whose bytes are known. -/
theorem delivers_word {v : Word} {i : Nat} (hi : Ram.offset (m.cpu.effectiveAddress w) = i)
    (haligned : (m.cpu.effectiveAddress w).Aligned) (hfits : i + 4 ≤ Ram.size)
    (hbytes : ∀ k < 4, m.memory.byteAt (i + k) = v.byte k) :
    (Opcode.decode w = .lw → m.Delivers w.rt v.sext) ∧
      (Opcode.decode w = .lwu → m.Delivers w.rt v.zext) := by
  have hword : m.memory.wordAt i = v := by
    have hzero : m.memory.byteAt i = v.byte 0 := hbytes 0 (by decide)
    rw [Ram.wordAt, hzero, hbytes 1 (by decide), hbytes 2 (by decide), hbytes 3 (by decide),
      Word.ofBytes_byte]
  have hval : w.rt.val ≠ 0 := fun h => hrt (Fin.ext h)
  subst hi hword
  constructor <;> intro hop
  · exact delivers_load32 hfetch hrt (by simp only [Cpu.action, hop, if_neg hval]) haligned hfits
  · exact delivers_load32 hfetch hrt (by simp only [Cpu.action, hop]) haligned hfits

theorem refuses_lw (hop : Opcode.decode w = .lw)
    (hmisaligned : ¬ (m.cpu.effectiveAddress w).Aligned) :
    m.step.1 = some (.unaligned (m.cpu.effectiveAddress w) 4) := by
  have hval : w.rt.val ≠ 0 := fun h => hrt (Fin.ext h)
  have haction : m.cpu.action w = .load32 w.rt (m.cpu.effectiveAddress w) Word.sext := by
    simp only [Cpu.action, hop, if_neg hval]
  rw [step_fst_of_fetch hfetch, ← Cpu.refusal?_action, haction]
  exact if_pos hmisaligned

end Load

/-- What a run has stored is loaded again, whatever it has done in between, as long as the stored
bytes have not been overwritten and the addresses differ at most in their segments: a stored byte
by either load of a byte; a stored word by either load of a word and byte by byte, the most
significant one first; and four stored bytes as the word that they make up, unless a word is asked
for at an address where no word can be. -/
theorem loads_read_stores {m m' : Machine Ram} {trace : List (Retirement Ram)} {w : Word}
    (hrun : Retires m trace m') (hfetch : m'.fetch.1 = .ok w) (hrt : w.rt ≠ 0) :
    let a := m'.cpu.effectiveAddress w
    (∀ r, Stands trace r → Opcode.decode r.word = .sb → r.address.Mirrors a →
      let b : Byte := r.source.setWidth 8
      (Opcode.decode w = .lbu → m'.Delivers w.rt (b.setWidth 64)) ∧
        (Opcode.decode w = .lb → m'.Delivers w.rt (b.signExtend 64))) ∧
    (∀ r, Stands trace r → Opcode.decode r.word = .sw →
      let v := r.source.lo
      (r.address.Mirrors a →
        (Opcode.decode w = .lw → m'.Delivers w.rt v.sext) ∧
          (Opcode.decode w = .lwu → m'.Delivers w.rt v.zext)) ∧
        ∀ k < 4, (r.address + .ofNat 32 k).Mirrors a → Opcode.decode w = .lbu →
          m'.Delivers w.rt ((v.byte k).setWidth 64)) ∧
    ∀ r : Fin 4 → Retirement Ram,
      (∀ k, Stands trace (r k) ∧ Opcode.decode (r k).word = .sb ∧
        (r k).address.Mirrors (a + .ofNat 32 k)) →
      Opcode.decode w = .lw →
        let b (k : Fin 4) : Byte := (r k).source.setWidth 8
        if a.Aligned then m'.Delivers w.rt (Word.ofBytes (b 0) (b 1) (b 2) (b 3)).sext
        else m'.step.1 = some (.unaligned a 4) := by
  intro a
  refine ⟨?_, ?_, ?_⟩
  · intro r hstands hop hmirrors b
    obtain ⟨hfits, hbyte⟩ := hstands.byteAt_of_sb hrun hop
    exact delivers_byte hfetch hrt hmirrors.offset_eq.symm hfits hbyte
  · intro r hstands hop v
    obtain ⟨haligned, hfits, hbytes⟩ := hstands.byteAt_of_sw hrun hop
    refine ⟨fun hmirrors => ?_, fun k hk hmirrors => ?_⟩
    · have haligned' : a.Aligned := hmirrors.mod_four_eq.symm.trans haligned
      exact delivers_word hfetch hrt hmirrors.offset_eq.symm haligned' hfits hbytes
    · have hoffset : Ram.offset a = Ram.offset r.address + k :=
        hmirrors.offset_eq.symm.trans (Ram.offset_add_of_aligned haligned hk)
      exact (delivers_byte hfetch hrt hoffset (by omega) (hbytes k hk)).1
  · intro r hstores hlw b
    split
    · next haligned =>
      have hbyte (k : Fin 4) :
          Ram.offset a + k < Ram.size ∧ m'.memory.byteAt (Ram.offset a + k) = b k := by
        obtain ⟨hstands, hop, hmirrors⟩ := hstores k
        have hstored := hstands.byteAt_of_sb hrun hop
        rwa [hmirrors.offset_eq, Ram.offset_add_of_aligned haligned k.isLt] at hstored
      have hfits : Ram.offset a + 4 ≤ Ram.size := (hbyte 3).1
      refine (delivers_word hfetch hrt rfl haligned hfits fun k hk => ?_).1 hlw
      rw [(hbyte ⟨k, hk⟩).2]
      have hfour : k = 0 ∨ k = 1 ∨ k = 2 ∨ k = 3 := by omega
      rcases hfour with rfl | rfl | rfl | rfl <;> simp
    · next hmisaligned => exact refuses_lw hfetch hrt hlw hmisaligned

/-- Stores a word, and then a byte that is next to it; both addresses are in another segment than
that of the load, which overwrites its own base register. -/
def storedWord : Machine Ram where
  cpu := (((Cpu.reset.setReg .v0 0xABCD0123A0000100).setReg .v1 0xABCD012312345678).setReg .a0
    0x100).setPc 0x80000000
  memory := ((Ram.blank.setWord 0 0xAC430000).setWord 4 0xA0400004).setWord 8 0x90840002

theorem storedWord_loads :
    let m := storedWord.steps 2
    let r : Retirement Ram := ⟨storedWord, 0xAC430000⟩
    let q : Retirement Ram := ⟨storedWord.step.2, 0xA0400004⟩
    Retires storedWord [r, q] m ∧ m.fetch.1 = .ok 0x90840002 ∧ Stands [r, q] r ∧
      (r.address + .ofNat 32 2).Mirrors (m.cpu.effectiveAddress 0x90840002) ∧
      m.step.1 = none ∧ m.step.2.cpu.reg 4 = 0x56 := by
  intro m r q
  have hrun : Retires storedWord [r, q] m :=
    .next rfl (Prod.ext (by decide) rfl) (.next rfl (Prod.ext (by decide) rfl) (.refl _))
  have hfetch : m.fetch.1 = .ok 0x90840002 := by decide
  have hstands : Stands [r, q] r := by
    refine ⟨[], [q], rfl, fun p hp => ?_⟩
    obtain rfl := List.mem_singleton.mp hp
    have hbyte : q.bytes = [0x104] := by decide
    have hword : r.bytes = [0x100, 0x101, 0x102, 0x103] := by decide
    rw [hbyte, hword]
    simp
  have hmirrors : (r.address + .ofNat 32 2).Mirrors (m.cpu.effectiveAddress 0x90840002) := by
    change _ % _ = _ % _
    decide
  obtain ⟨-, hword, -⟩ := loads_read_stores hrun hfetch (by decide)
  obtain ⟨hretires, hreg⟩ := (hword r hstands (by decide)).2 2 (by decide) hmirrors (by decide)
  have hvalue : (r.source.lo.byte 2).setWidth 64 = 0x56 := by decide
  exact ⟨hrun, hfetch, hstands, hmirrors, hretires, hreg.trans hvalue⟩

end Machine

end Mips
