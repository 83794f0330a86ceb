import Lr35902.Hex
import Lr35902.RegisterFile

/-!
# Faults

A `Fault` is the reason why an operation of the machine could not be carried out, and
`Fault.message` is its text.
-/

namespace Lr35902

/-- The two arrays of bytes that an address can point into. -/
inductive AddressSpace where
  /-- The memory that loads and stores see. -/
  | memory
  /-- The image that instructions are fetched from. -/
  | rom
deriving DecidableEq

/-- The space's name as it appears in messages. -/
def AddressSpace.name : AddressSpace → String
  | memory => "memory"
  | rom => "ROM"

/-- Why an operation failed. -/
inductive Fault where
  /-- The address lies outside of a space of `size` bytes. -/
  | outOfBounds (space : AddressSpace) (addr size : Nat)
  /-- An image of `len` bytes does not fit at `offset`. -/
  | romOverflow (offset len size : Nat)
  /-- The byte at `addr` is no instruction; `extended` tells the table it was looked up in. -/
  | unknownOpcode (opcode : UInt8) (extended : Bool) (addr : UInt16)
  /-- The STOP instruction at `addr` is followed by another byte than zero. -/
  | malformedStop (addr : UInt16) (byte : UInt8)
  /-- An instruction used a register with the wrong width. -/
  | access (error : AccessError)
deriving DecidableEq

/-- The text of the fault. -/
def Fault.message : Fault → String
  | outOfBounds space addr size =>
    s!"{space.name} access at {Hex.literal addr} is outside the {Hex.literal size}-byte window"
  | romOverflow offset len size =>
    s!"loading {len} bytes at ROM offset {Hex.literal offset} overflows the " ++
      s!"{Hex.literal size}-byte image"
  | unknownOpcode opcode extended addr =>
    let table := if extended then "CB-prefixed " else ""
    s!"unknown {table}opcode 0x{Hex.byte opcode} at PC=0x{Hex.word addr}"
  | malformedStop addr byte =>
    s!"STOP at PC=0x{Hex.word addr} must be followed by 0x00, found 0x{Hex.byte byte}"
  | access error => error.message

end Lr35902
