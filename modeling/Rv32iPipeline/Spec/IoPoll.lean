import Rv32iPipeline.Rtl.CpuTop
import Rv32iPipeline.Spec.Machine

/-!
# `Rv32iPipeline.Spec.IoPoll`: `io_poll.s`

The poll loop of the board: it sends the switches to the seven-segment port, and lights all LEDs
while a button is down.
-/

set_option autoImplicit false

namespace Rv32iPipeline

open Rv32i (Instr)

/-- The instructions of `io_poll.s`, from address 0. -/
def ioPoll : List Instr :=
  [ -- `_start`
    .lui 11#5 0x11000#20,
    .opImm .addi 12#5 11#5 0x20#12,
    .opImm .addi 13#5 11#5 0x40#12,
    .opImm .addi 14#5 11#5 0x80#12,
    -- `loop`: the switches to the display
    .load .lw 5#5 11#5 0#12,
    .opImm .addi 0#5 0#5 0#12,
    .opImm .addi 0#5 0#5 0#12,
    .store .sw 13#5 5#5 0#12,
    -- the buttons to the LEDs
    .load .lw 6#5 14#5 0#12,
    .opImm .addi 0#5 0#5 0#12,
    .opImm .addi 0#5 0#5 0#12,
    .branch .beq 6#5 0#5 (BitVec.ofInt 12 10),
    .lui 7#5 0x00010#20,
    .opImm .addi 7#5 7#5 (-1#12),
    .store .sw 12#5 7#5 0#12,
    .jal 0#5 (BitVec.ofInt 20 (-22)),
    -- `leds_off`
    .store .sw 12#5 0#5 0#12,
    .jal 0#5 (BitVec.ofInt 20 (-26)) ]

/-- The words of `io_poll.s`. -/
example : ioPoll.map Instr.encode =
    [0x110005B7#32, 0x02058613#32, 0x04058693#32, 0x08058713#32, 0x0005A283#32, 0x00000013#32,
      0x00000013#32, 0x0056A023#32, 0x00072303#32, 0x00000013#32, 0x00000013#32, 0x00030A63#32,
      0x000103B7#32, 0xFFF38393#32, 0x00762023#32, 0xFD5FF06F#32, 0x00062023#32,
      0xFCDFF06F#32] := by decide

/-- The image holds the program. Its other words may be anything. -/
def HoldsIoPoll (imem : InstructionMemory) : Prop :=
  ∀ k (h : k < ioPoll.length), imem (BitVec.ofNat 13 k) = (ioPoll.get ⟨k, h⟩).encode

end Rv32iPipeline
