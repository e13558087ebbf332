import Mips.Memory.Ram
/-!
# Memories that stay as they are

Two laws that a memory may have.  Most memories have both; one that keeps a record of what it was
asked has neither.
-/

namespace Mips

namespace Memory

variable (μ : Type) [Memory μ]

/-- An access that fails leaves the memory as it was. -/
structure FaultsKeep : Prop where
  read8 : ∀ {m m' : μ} {a : Word} {f : Fault}, Memory.read8 m a = (.error f, m') → m' = m
  read32 : ∀ {m m' : μ} {a : Word} {f : Fault}, Memory.read32 m a = (.error f, m') → m' = m
  write8 : ∀ {m m' : μ} {a : Word} {b : Byte} {f : Fault},
    Memory.write8 m a b = (.error f, m') → m' = m
  write32 : ∀ {m m' : μ} {a w : Word} {f : Fault},
    Memory.write32 m a w = (.error f, m') → m' = m

/-- A read leaves the memory as it was. -/
structure ReadsKeep : Prop where
  read8 : ∀ (m : μ) (a : Word), (Memory.read8 m a).2 = m
  read32 : ∀ (m : μ) (a : Word), (Memory.read32 m a).2 = m

end Memory

namespace Ram

theorem readsKeep : Memory.ReadsKeep Ram where
  read8 _ _ := rfl
  read32 _ _ := rfl

theorem faultsKeep : Memory.FaultsKeep Ram where
  read8 h := (congrArg Prod.snd h).symm
  read32 h := (congrArg Prod.snd h).symm
  write8 {m _ a b _} h := by
    simp only [Memory.write8] at h
    split at h <;> cases h
    rfl
  write32 {m _ a w _} h := by
    simp only [Memory.write32] at h
    split at h <;> cases h
    rfl

end Ram

end Mips
