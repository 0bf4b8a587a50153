import Rv32iPipeline.Rtl.CpuPkg

/-!
# `Rv32iPipeline.Rtl.Memory`: `DMEM.sv` and `Interconnect.sv`

`DMEM` is 2048 words with byte, half and word writes. A read registers the whole word. The
size, the sign and the lane are picked afterwards by the combinational formatter, from the
`mem_data` and `address` pins of the moment (`Dmem.dataOut`).

`Interconnect` decodes the address into DMEM and MMIO enables. It registers the region of
the last read, and the MMIO value of the last MMIO read.
-/

set_option autoImplicit false

namespace Rv32iPipeline

/-! ### `DMEM` -/

/-- `memory[0:2047]`. -/
abbrev DataMemory := BitVec 11 → Word

/-- The flops of `DMEM`: the array and the registered word `memReadWord`. -/
@[ext] structure Dmem where
  memory : DataMemory
  memReadWord : Word

/-- `wordAddress`: the low 11 bits of the word index from the base `0x3F60`. -/
def wordAddress (address : Word) : BitVec 11 := ((address - 0x00003f60#32) >>> 2).setWidth 11

/-- `mem_data[2:1]`. -/
def memSizeOf (memData : BitVec 3) : BitVec 2 := memData.extractLsb' 1 2

/-- `mem_data[0]`. -/
def memSignOf (memData : BitVec 3) : Bool := memData.getLsbD 0

/-- `address[1:0]`. -/
def byteOffsetOf (address : Word) : BitVec 2 := address.extractLsb' 0 2

/-- The word after a write of `dataIn` with `mem_size` and `byteOffset`. -/
def writeLanes (w dataIn : Word) (memSize byteOffset : BitVec 2) : Word :=
  match memSize, byteOffset with
  | 0b00#2, 0b00#2 => w.extractLsb' 8 24 ++ dataIn.extractLsb' 0 8
  | 0b00#2, 0b01#2 => w.extractLsb' 16 16 ++ dataIn.extractLsb' 0 8 ++ w.extractLsb' 0 8
  | 0b00#2, 0b10#2 => w.extractLsb' 24 8 ++ dataIn.extractLsb' 0 8 ++ w.extractLsb' 0 16
  | 0b00#2, 0b11#2 => dataIn.extractLsb' 0 8 ++ w.extractLsb' 0 24
  -- the half word has no arm for offset 3
  | 0b01#2, 0b00#2 => w.extractLsb' 16 16 ++ dataIn.extractLsb' 0 16
  | 0b01#2, 0b01#2 => w.extractLsb' 24 8 ++ dataIn.extractLsb' 0 16 ++ w.extractLsb' 0 8
  | 0b01#2, 0b10#2 => dataIn.extractLsb' 0 16 ++ w.extractLsb' 0 16
  -- the word is written at offset 0 only
  | 0b10#2, 0b00#2 => dataIn
  | _, _ => w

/-- The read formatter: `memReadWord` with `mem_sign`, `mem_size` and `byteOffset`. -/
def formatRead (w : Word) (memSign : Bool) (memSize byteOffset : BitVec 2) : Word :=
  match memSign, memSize, byteOffset with
  -- sign-extended
  | false, 0b00#2, 0b11#2 => (w.extractLsb' 24 8).signExtend 32
  | false, 0b00#2, 0b10#2 => (w.extractLsb' 16 8).signExtend 32
  | false, 0b00#2, 0b01#2 => (w.extractLsb' 8 8).signExtend 32
  | false, 0b00#2, 0b00#2 => (w.extractLsb' 0 8).signExtend 32
  | false, 0b01#2, 0b10#2 => (w.extractLsb' 16 16).signExtend 32
  | false, 0b01#2, 0b01#2 => (w.extractLsb' 8 16).signExtend 32
  | false, 0b01#2, 0b00#2 => (w.extractLsb' 0 16).signExtend 32
  | false, 0b10#2, 0b00#2 => w
  -- zero-extended; there is no unsigned word
  | true, 0b00#2, 0b11#2 => (w.extractLsb' 24 8).setWidth 32
  | true, 0b00#2, 0b10#2 => (w.extractLsb' 16 8).setWidth 32
  | true, 0b00#2, 0b01#2 => (w.extractLsb' 8 8).setWidth 32
  | true, 0b00#2, 0b00#2 => (w.extractLsb' 0 8).setWidth 32
  | true, 0b01#2, 0b10#2 => (w.extractLsb' 16 16).setWidth 32
  | true, 0b01#2, 0b01#2 => (w.extractLsb' 8 16).setWidth 32
  | true, 0b01#2, 0b00#2 => (w.extractLsb' 0 16).setWidth 32
  | _, _, _ => 0#32

namespace Dmem

/-- `data_out`. -/
def dataOut (m : Dmem) (address : Word) (memData : BitVec 3) : Word :=
  formatRead m.memReadWord (memSignOf memData) (memSizeOf memData) (byteOffsetOf address)

/-- The array after an edge with `WE`. -/
def write (mem : DataMemory) (address dataIn : Word) (memData : BitVec 3) : DataMemory :=
  fun a =>
    if a = wordAddress address then
      writeLanes (mem a) dataIn (memSizeOf memData) (byteOffsetOf address)
    else mem a

/-- One rising edge of `CLK`. A read gets the word from before a write of the same edge. -/
def step (m : Dmem) (we rden : Bool) (address dataIn : Word) (memData : BitVec 3) : Dmem where
  memory := if we then write m.memory address dataIn memData else m.memory
  -- the whole word, whatever the size of the access
  memReadWord := if rden then m.memory (wordAddress address) else m.memReadWord

end Dmem

/-! ### `Interconnect` -/

/-- `read_region_e`. -/
inductive ReadRegion where
  | none
  | dmem
  | mmio
  deriving DecidableEq, Repr

/-- The flops of `Interconnect`: `region_q` and `mmio_q`. -/
@[ext] structure Interconnect where
  regionQ : ReadRegion
  mmioQ : Word

/-- The enables that `Interconnect` decodes from the address. -/
structure Enables where
  dmemRden : Bool
  dmemWe : Bool
  ledsWe : Bool
  ssegWe : Bool
  deriving DecidableEq, Repr

namespace Interconnect

/-- The enable pins. -/
def enables (address : Word) (we rden : Bool) : Enables :=
  -- MMIO has two write ports: the LEDs and the seven-segment display
  if 0x11000000#32 ≤ address then
    if address = 0x11000020#32 then ⟨false, false, we, false⟩
    else if address = 0x11000040#32 then ⟨false, false, false, we⟩
    else ⟨false, false, false, false⟩
  else if 0x00003f60#32 ≤ address then ⟨rden, we, false, false⟩
  else ⟨false, false, false, false⟩

/-- One rising edge of `CLK`. -/
def step (q : Interconnect) (address : Word) (rden : Bool) (switches buttons : Word) :
    Interconnect :=
  if rden then
    -- a read request moves the region; any other cycle keeps it
    if 0x11000000#32 ≤ address then
      { regionQ := .mmio
        mmioQ :=
          if address = 0x11000020#32 then buttons
          else if address = 0x11000040#32 then switches
          else 0#32 }
    else if 0x00003F60#32 ≤ address then { q with regionQ := .dmem }
    else { q with regionQ := .none }
  else q

/-- `IOBUS_in`. -/
def iobusIn (q : Interconnect) (dmemData : Word) : Word :=
  match q.regionQ with
  | .dmem => dmemData
  | .mmio => q.mmioQ
  | .none => 0#32

end Interconnect

end Rv32iPipeline
