import Rv32iPipeline.Rtl.CpuPkg

/-!
# `Rv32iPipeline.Rtl.Datapath`: the combinational blocks and the register file

One definition per module of the datapath: the two muxes, the ALU, the branch
comparator, the immediate generator, the jump and branch address generator, the
PC decoder, the PC mux and the register file. Each is the `always_comb` (or the
`assign`s) of its module as a function of its input pins.

`fourToOneMux` is also the write-back mux of `CPU_TOP`, whose `B` pin is tied to
`'X`. Its value is an argument there.
-/

set_option autoImplicit false

namespace Rv32iPipeline

/-- `TWO_TO_ONE_MUX`. -/
def twoToOneMux (a b : Word) (sel : Bool) : Word :=
  match sel with
  | false => a
  | true => b

/-- `FOUR_TO_ONE_MUX`. -/
def fourToOneMux (a b c d : Word) (sel : BitVec 2) : Word :=
  match sel with
  | 0b00#2 => a
  | 0b01#2 => b
  | 0b10#2 => c
  | _ => d

/-- `ALU`. The three shifts take the low five bits of `srcB`. -/
def alu (srcA srcB : Word) (aluFunc : BitVec 4) : Word :=
  match aluFunc with
  | 0b0000#4 => srcA + srcB
  | 0b1000#4 => srcA - srcB
  | 0b0110#4 => srcA ||| srcB
  | 0b0111#4 => srcA &&& srcB
  | 0b0100#4 => srcA ^^^ srcB
  | 0b0101#4 => srcA >>> srcB.extractLsb' 0 5
  | 0b0001#4 => srcA <<< srcB.extractLsb' 0 5
  | 0b1101#4 => srcA.sshiftRight' (srcB.extractLsb' 0 5)
  | 0b0010#4 => if srcA.slt srcB then 1#32 else 0#32
  | 0b0011#4 => if srcA.ult srcB then 1#32 else 0#32
  -- `LUI`: the U-type immediate is shifted already
  | 0b1001#4 => srcA
  | _ => 0#32

/-- The output pins of `Branch_Condition_Generator`. -/
structure BranchFlags where
  brLt : Bool
  brEq : Bool
  brLtu : Bool

/-- `Branch_Condition_Generator`. -/
def branchConditionGenerator (rs1 rs2 : Word) : BranchFlags where
  brLt := rs1.slt rs2
  brEq := rs1 == rs2
  brLtu := rs1.ult rs2

/-- The output pins of `Immediate_Generator`. -/
structure Immediates where
  uType : Word
  iType : Word
  sType : Word
  bType : Word
  jType : Word

/-- `Immediate_Generator`. `imm` is `ir[31:7]`, so `imm[k]` is `ir[k + 7]`. -/
def immediateGenerator (imm : BitVec 25) : Immediates where
  iType := BitVec.replicate 21 (imm.extractLsb' 24 1) ++ imm.extractLsb' 18 6
    ++ imm.extractLsb' 14 4 ++ imm.extractLsb' 13 1
  sType := BitVec.replicate 21 (imm.extractLsb' 24 1) ++ imm.extractLsb' 18 6
    ++ imm.extractLsb' 1 4 ++ imm.extractLsb' 0 1
  bType := BitVec.replicate 20 (imm.extractLsb' 24 1) ++ imm.extractLsb' 0 1
    ++ imm.extractLsb' 18 6 ++ imm.extractLsb' 1 4 ++ 0b0#1
  uType := imm.extractLsb' 5 20 ++ 0#12
  jType := BitVec.replicate 12 (imm.extractLsb' 24 1) ++ imm.extractLsb' 5 8
    ++ imm.extractLsb' 13 1 ++ imm.extractLsb' 14 10 ++ 0b0#1

/-- The output pins of `Jump_Branch_Address_Generator`. -/
structure Targets where
  jalr : Word
  branch : Word
  jal : Word

/-- `Jump_Branch_Address_Generator`. Only bit 0 of the `jalr` target is cleared. -/
def jumpBranchAddressGenerator (pc jType bType iType rs1 : Word) : Targets where
  jalr := (iType + rs1) &&& 0xFFFFFFFE#32
  branch := pc + bType
  jal := pc + jType

/-- `PC_Decoder`. Two raised jump or branch flags fall to the `default` arm. -/
def pcDecoder (br : BranchFlags) (branchI jalI jalrI : Bool) (func3 : BitVec 3) : BitVec 2 :=
  match branchI, jalI, jalrI with
  | false, false, false => pcPc4
  -- a branch: `BEQ`, `BNE`, `BLT`, `BGE`, `BLTU`, `BGEU`
  | true, false, false =>
    match func3 with
    | 0b000#3 => if br.brEq then pcBranch else pcPc4
    | 0b001#3 => if !br.brEq then pcBranch else pcPc4
    | 0b100#3 => if br.brLt then pcBranch else pcPc4
    | 0b101#3 => if !br.brLt then pcBranch else pcPc4
    | 0b110#3 => if br.brLtu then pcBranch else pcPc4
    | 0b111#3 => if !br.brLtu then pcBranch else pcPc4
    | _ => pcPc4
  | false, true, false => pcJal
  | false, false, true => pcJalr
  | _, _, _ => 0b00#2

/-- `Program_Counter`. -/
def programCounter (reset : Bool) (pcSel : BitVec 2) (pcPlusFour : Word) (t : Targets) : Word :=
  match reset with
  | false =>
    match pcSel with
    | 0b00#2 => pcPlusFour
    | 0b01#2 => t.jalr
    | 0b10#2 => t.branch
    | _ => t.jal
  | true => 0#32

/-! ### `Reg_File` -/

/-- The register array. Slot 0 exists but the read ports never show it. -/
abbrev Registers := BitVec 5 → Word

/-- A read port of `Reg_File`: `x0` reads zero. -/
def Registers.read (regs : Registers) (adr : BitVec 5) : Word :=
  if adr = 0#5 then 0#32 else regs adr

/-- The write port of `Reg_File`. -/
def Registers.write (regs : Registers) (en : Bool) (wAdr : BitVec 5) (wData : Word) : Registers :=
  -- a write to `x0` is dropped at the port
  if en && wAdr != 0#5 then fun r => if r = wAdr then wData else regs r else regs

@[simp] theorem Registers.read_zero (regs : Registers) : regs.read 0#5 = 0#32 := rfl

@[simp] theorem Registers.write_disabled (regs : Registers) (a : BitVec 5) (v : Word) :
    regs.write false a v = regs := rfl

@[simp] theorem Registers.write_x0 (regs : Registers) (en : Bool) (v : Word) :
    regs.write en 0#5 v = regs := by
  simp [Registers.write]

/-- A read after a write: the new value at the written register (never `x0`), the old
value everywhere else. -/
theorem Registers.read_write (regs : Registers) (en : Bool) (a r : BitVec 5) (v : Word) :
    (regs.write en a v).read r
      = if en = true ∧ r = a ∧ r ≠ 0#5 then v else regs.read r := by
  by_cases hr : r = 0#5
  · simp [hr, Registers.read]
  · by_cases ha : a = 0#5
    · have hne : r ≠ a := fun h => hr (h.trans ha)
      simp [ha, hr]
    · cases en <;> simp [Registers.read, Registers.write, hr, ha]

end Rv32iPipeline
