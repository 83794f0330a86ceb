/-!
# The boot program

The built-in boot program sets up the stack, clears the video memory and the sprite table, programs
sound, palettes and display, loads the registers with the values that cartridges expect, and ends
with a store that removes it from the address space, so that execution goes on with the cartridge at
address 0x0100.
-/

namespace Lr35902

namespace BootProgram

/-- The number of bytes that the program occupies, which is also the address behind it. -/
def size : Nat := 0x100

/-- The working part of the program, from address 0. -/
def opening : List UInt8 := [
  0x31, 0xFE, 0xFF,  -- LD SP, 0xFFFE
  0xAF,              -- XOR A
  0x21, 0xFF, 0x9F,  -- LD HL, 0x9FFF
  0x32,              -- LD (HL-), A
  0xCB, 0x7C,        -- BIT 7, H
  0x20, 0xFB,        -- JR NZ, back to the store
  0x21, 0x00, 0xFE,  -- LD HL, 0xFE00
  0x06, 0xA0,        -- LD B, 0xA0
  0x22,              -- LD (HL+), A
  0x05,              -- DEC B
  0x20, 0xFC,        -- JR NZ, back to the store
  0x3E, 0x80,        -- LD A, 0x80
  0xE0, 0x26,        -- LDH (0x26), A
  0x3E, 0x77,        -- LD A, 0x77
  0xE0, 0x24,        -- LDH (0x24), A
  0x3E, 0xF3,        -- LD A, 0xF3
  0xE0, 0x25,        -- LDH (0x25), A
  0x3E, 0xFC,        -- LD A, 0xFC
  0xE0, 0x47,        -- LDH (0x47), A
  0x3E, 0xFF,        -- LD A, 0xFF
  0xE0, 0x48,        -- LDH (0x48), A
  0xE0, 0x49,        -- LDH (0x49), A
  0xAF,              -- XOR A
  0xE0, 0x42,        -- LDH (0x42), A
  0xE0, 0x43,        -- LDH (0x43), A
  0xE0, 0x0F,        -- LDH (0x0F), A
  0x3E, 0x91,        -- LD A, 0x91
  0xE0, 0x40,        -- LDH (0x40), A
  0x01, 0xB0, 0x01,  -- LD BC, 0x01B0
  0xC5,              -- PUSH BC
  0xF1,              -- POP AF
  0x01, 0x13, 0x00,  -- LD BC, 0x0013
  0x11, 0xD8, 0x00,  -- LD DE, 0x00D8
  0x21, 0x4D, 0x01,  -- LD HL, 0x014D
  0x31, 0xFE, 0xFF]  -- LD SP, 0xFFFE

/-- The last four bytes, which remove the program. -/
def closing : List UInt8 := [
  0x3E, 0x01,        -- LD A, 0x01
  0xE0, 0x50]        -- LDH (0x50), A

/-- The program: its opening, no operations up to the closing, and the closing. -/
def bytes : List UInt8 :=
  opening ++ List.replicate (size - opening.length - closing.length) 0 ++ closing

theorem length_bytes : bytes.length = size := by decide +kernel

end BootProgram

end Lr35902
