import Mathlib.Tactic.Common
import Rv32iPipeline.Clocked.Run

/-!
# `Rv32iPipeline.Rtl.SevSegDisp`: `BCD.sv`, `CathodeDriver.sv` and `SevSegDisp.sv`

The display has four digits and one set of cathodes. `BCD` turns the value of the display register
into four decimal digits. `CathodeDriver` divides `CLK` down to `s_clk_500`, and each rise of that
clock drives one digit and moves on to the next.

`CathodeDriver` keeps the same cathode table once for each digit. It is one definition here,
`segments`.
-/

set_option autoImplicit false

namespace Rv32iPipeline

/-! ### `BCD` -/

/-- The four output digits of `BCD`. -/
@[ext] structure Bcd where
  thousands : BitVec 4
  hundreds : BitVec 4
  tens : BitVec 4
  ones : BitVec 4

namespace Bcd

/-- A place value of 5 or more is raised by 3, which makes the shift carry out of it. -/
def adjust (d : BitVec 4) : BitVec 4 := if 5#4 ≤ d then d + 3#4 else d

/-- One iteration of the loop: adjust the four digits and shift in one bit. -/
def shift (x : Bcd) (bit : Bool) : Bcd where
  thousands := (adjust x.thousands).extractLsb' 0 3 ++ (adjust x.hundreds).extractLsb' 3 1
  hundreds := (adjust x.hundreds).extractLsb' 0 3 ++ (adjust x.tens).extractLsb' 3 1
  tens := (adjust x.tens).extractLsb' 0 3 ++ (adjust x.ones).extractLsb' 3 1
  ones := (adjust x.ones).extractLsb' 0 3 ++ BitVec.ofBool bit

/-- The loop from bit `i - 1` of `HEX` down to bit 0. -/
def loop (hex : BitVec 16) : ℕ → Bcd → Bcd
  | 0, x => x
  | i + 1, x => loop hex i (x.shift (hex.getLsbD i))

end Bcd

/-- `BCD`. -/
def bcd (hex : BitVec 16) : Bcd := Bcd.loop hex 16 ⟨0x0#4, 0x0#4, 0x0#4, 0x0#4⟩

/-! ### `CathodeDriver` -/

/-- `CATHODES = {dp,a,b,c,d,e,f,g}` for one digit. A segment is lit by a 0. -/
def segments (digit : BitVec 4) : BitVec 8 :=
  match digit with
  | 0b0000#4 => 0b10000001#8
  | 0b0001#4 => 0b11001111#8
  | 0b0010#4 => 0b10010010#8
  | 0b0011#4 => 0b10000110#8
  | 0b0100#4 => 0b11001100#8
  | 0b0101#4 => 0b10100100#8
  | 0b0110#4 => 0b10100000#8
  | 0b0111#4 => 0b10001111#8
  | 0b1000#4 => 0b10000000#8
  | 0b1001#4 => 0b10001100#8
  | 0b1010#4 => 0b10001000#8
  | 0b1011#4 => 0b11100000#8
  | 0b1100#4 => 0b10110001#8
  | 0b1101#4 => 0b11000010#8
  | 0b1110#4 => 0b10110000#8
  | 0b1111#4 => 0b10111000#8
  | _ => 0b11111111#8

/-- `ANODES = {d4, d3, d2, d1}` for the digit `r_disp_digit`. A digit is lit by a 0. -/
def anode (dispDigit : BitVec 2) : BitVec 4 :=
  match dispDigit with
  | 0b00#2 => 0b1110#4
  | 0b01#2 => 0b1101#4
  | 0b10#2 => 0b1011#4
  | _ => 0b0111#4

/-- The four bits of `HEX` that the digit `r_disp_digit` shows. -/
def nibble (dispDigit : BitVec 2) (hex : BitVec 16) : BitVec 4 :=
  match dispDigit with
  | 0b00#2 => hex.extractLsb' 0 4
  | 0b01#2 => hex.extractLsb' 4 4
  | 0b10#2 => hex.extractLsb' 8 4
  | _ => hex.extractLsb' 12 4

/-- The flops of `CathodeDriver`. -/
@[ext] structure CathodeDriver where
  sClk500 : Bool
  dispDigit : BitVec 2
  clkDivCounter : BitVec 20
  cathodes : BitVec 8
  anodes : BitVec 4

/-- The input pins of `CathodeDriver` at one rising edge of `CLK`. -/
structure CathodeInput where
  sReset : Bool
  hex : BitVec 16

namespace CathodeDriver

/-- `clk_div_counter` after a rising edge of `CLK`. -/
def nextCounter (d : CathodeDriver) (sReset : Bool) : BitVec 20 :=
  if sReset then 0x00000#20
  else if d.clkDivCounter = 0x186A0#20 then 0x00000#20
  else d.clkDivCounter + 1#20

/-- `s_clk_500` after a rising edge of `CLK`. -/
def nextClk500 (d : CathodeDriver) (sReset : Bool) : Bool :=
  if sReset then false
  else if d.clkDivCounter = 0x186A0#20 then !d.sClk500
  else d.sClk500

/-- This edge of `CLK` raises `s_clk_500`. -/
def refreshes (d : CathodeDriver) (sReset : Bool) : Bool := !d.sClk500 && d.nextClk500 sReset

/-- The block on the rising edge of `s_clk_500`. -/
def refresh (d : CathodeDriver) (i : CathodeInput) : CathodeDriver :=
  { d with
      dispDigit := if i.sReset then 0b00#2 else d.dispDigit + 1#2
      -- the pins take the digit of before the edge
      anodes := anode d.dispDigit
      cathodes := segments (nibble d.dispDigit i.hex) }

/-- One rising edge of `CLK`, with the edge of `s_clk_500` that it may cause. -/
def step (d : CathodeDriver) (i : CathodeInput) : CathodeDriver :=
  { (if d.refreshes i.sReset then d.refresh i else d) with
      clkDivCounter := d.nextCounter i.sReset
      sClk500 := d.nextClk500 i.sReset }

/-- The run of the driver. -/
def run (d : CathodeDriver) (inp : ℕ → CathodeInput) (n : ℕ) : CathodeDriver :=
  Clocked.run step d inp n

end CathodeDriver

/-! ### `SevSegDisp` -/

/-- The input pins of `SevSegDisp` at one rising edge of `CLK`. -/
structure DisplayInput where
  mode : Bool
  sReset : Bool
  dataIn : BitVec 16

namespace SevSegDisp

/-- `BCD_Val`. -/
def bcdVal (dataIn : BitVec 16) : BitVec 16 :=
  (bcd dataIn).thousands ++ (bcd dataIn).hundreds ++ (bcd dataIn).tens ++ (bcd dataIn).ones

/-- `Hex_Val`: the mux on `MODE`. -/
def hexVal (mode : Bool) (dataIn : BitVec 16) : BitVec 16 :=
  if mode = true then bcdVal dataIn else dataIn

/-- The pins of the driver inside. -/
def cathodeInput (i : DisplayInput) : CathodeInput := ⟨i.sReset, hexVal i.mode i.dataIn⟩

/-- One rising edge of `CLK`. The driver has the only flops. -/
def step (d : CathodeDriver) (i : DisplayInput) : CathodeDriver := d.step (cathodeInput i)

/-- The run of the display. -/
def run (d : CathodeDriver) (inp : ℕ → DisplayInput) (n : ℕ) : CathodeDriver :=
  Clocked.run step d inp n

end SevSegDisp

end Rv32iPipeline
