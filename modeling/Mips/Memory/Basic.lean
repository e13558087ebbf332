import Mips.Fault
/-!
# Memory

What a processor asks of a memory: bytes and words at virtual addresses.  An access answers with
its result and with the memory after it, so that a memory may keep a record of what it was asked,
whether the access succeeds or not.
-/

namespace Mips

class Memory (μ : Type) where
  read8 : μ → Word → Except Fault Byte × μ
  read32 : μ → Word → Except Fault Word × μ
  write8 : μ → Word → Byte → Except Fault Unit × μ
  write32 : μ → Word → Word → Except Fault Unit × μ

end Mips
