import Lr35902.Fault

/-!
# Buses

A `Bus` is everything that the processor can address.  Loads and stores go through `Bus.read8` and
`Bus.write8`; the bytes of instructions come from `Bus.fetch8`.  Each access may change the bus and
may fail, and a failed access leaves behind the bus that it left, so that later work can go on
from there.
-/

namespace Lr35902

/-- What the processor can do with a bus of type `σ`. -/
class Bus (σ : Type) where
  /-- Loads the byte at an address. -/
  read8 : UInt16 → EStateM Fault σ UInt8
  /-- Stores a byte at an address. -/
  write8 : UInt16 → UInt8 → EStateM Fault σ Unit
  /-- Fetches the instruction byte at an address. -/
  fetch8 : UInt16 → EStateM Fault σ UInt8
  /-- The address after the last one that holds instructions. -/
  extent : σ → Nat

end Lr35902
