import Rv32iPipeline.Rtl.CpuPkg

/-!
# `Rv32iPipeline.Rtl.ControlUnitDecoder`: `Control_Unit_Decoder.sv`

The decoder drives its outputs to `'X` in the `default` arm (no recognised
opcode). `DontCare` is one choice of a value for each of those bits, so
`controlUnitDecoder` takes the choice as an argument. `DontCare.zero` reads every
`'X` as 0. Only `system_call` keeps its base value in the `default` arm.

The record also carries a value for the one other `'X` of the core that a select
can reach: pin `B` of the write-back mux in `CPU_TOP` (select `WB_CSR`).
-/

set_option autoImplicit false

namespace Rv32iPipeline

/-- The output pins of `Control_Unit_Decoder`. -/
@[ext] structure Control where
  srcASel : Bool
  rfWe : Bool
  memWe : Bool
  memRden : Bool
  branchI : Bool
  jalI : Bool
  jalrI : Bool
  srcBSel : BitVec 2
  rfSel : BitVec 2
  aluFun : BitVec 4
  rs1Used : Bool
  rs2Used : Bool
  systemCall : Bool
  deriving DecidableEq, Repr

/-- One 0/1 choice for every bit the core drives to `'X` in a cycle. -/
structure DontCare where
  srcASel : Bool
  rfWe : Bool
  memWe : Bool
  memRden : Bool
  branchI : Bool
  jalI : Bool
  jalrI : Bool
  srcBSel : BitVec 2
  rfSel : BitVec 2
  aluFun : BitVec 4
  rs1Used : Bool
  rs2Used : Bool
  wbCsr : Word

/-- Every `'X` read as 0. -/
def DontCare.zero : DontCare :=
  ⟨false, false, false, false, false, false, false, 0#2, 0#2, 0#4, false, false, 0#32⟩

/-- The base cases at the top of the `always_comb`. -/
def Control.base : Control where
  aluFun := aluAdd
  srcASel := srcaRs1
  srcBSel := srcbRs2
  rfSel := wbPc4
  rfWe := false
  memWe := false
  memRden := false
  branchI := false
  jalI := false
  jalrI := false
  rs1Used := false
  rs2Used := false
  systemCall := false

/-- `ALU_FUN` of the I-type arm. All eight `func3` values have an arm of their own, so the
inner `default` is never taken. -/
def iTypeAluFun (func3 : BitVec 3) (ir30 : Bool) : BitVec 4 :=
  match func3 with
  | 0b000#3 => aluAdd
  | 0b010#3 => aluSlt
  | 0b011#3 => aluSltu
  | 0b110#3 => aluOr
  | 0b100#3 => aluXor
  | 0b111#3 => aluAnd
  | 0b001#3 => aluSll
  | _ => if ir30 then aluSra else aluSrl

/-- `ALU_FUN` of the R-type arm. -/
def rTypeAluFun (func3 : BitVec 3) (ir30 : Bool) : BitVec 4 :=
  match func3 with
  | 0b000#3 => if ir30 then aluSub else aluAdd
  | 0b001#3 => aluSll
  | 0b010#3 => aluSlt
  | 0b011#3 => aluSltu
  | 0b100#3 => aluXor
  | 0b101#3 => if ir30 then aluSra else aluSrl
  | 0b110#3 => aluOr
  | _ => aluAnd

/-- `Control_Unit_Decoder`. -/
def controlUnitDecoder (opcode : BitVec 7) (func3 : BitVec 3) (ir30 : Bool) (x : DontCare) :
    Control :=
  match opcode with
  -- `FENCE`: the base cases
  | 0b0001111#7 => Control.base
  -- `LUI`
  | 0b0110111#7 =>
    { Control.base with aluFun := aluLuiCopy, srcASel := srcaUType, rfSel := wbAlu, rfWe := true }
  -- `AUIPC`
  | 0b0010111#7 =>
    { Control.base with
        srcASel := srcaUType, srcBSel := srcbPc, rfSel := wbAlu, memRden := false,
        memWe := false, rfWe := true }
  -- `JAL`
  | 0b1101111#7 =>
    { Control.base with
        srcASel := srcaUType, srcBSel := srcbPc, rfSel := wbPc4, jalI := true, rfWe := true }
  -- `JALR`: the target comes from `Jump_Branch_Address_Generator`, not from the ALU
  | 0b1100111#7 =>
    { Control.base with rfSel := wbPc4, jalrI := true, rfWe := true, rs1Used := true }
  -- the loads: `DMEM` tells the sizes apart
  | 0b0000011#7 =>
    { Control.base with
        srcASel := srcaRs1, srcBSel := srcbIType, rfSel := wbDataIn, memRden := true,
        rfWe := true, rs1Used := true }
  -- the ALU instructions with an immediate
  | 0b0010011#7 =>
    { Control.base with
        srcASel := srcaRs1, srcBSel := srcbIType, rfSel := wbAlu, rfWe := true, rs1Used := true,
        aluFun := iTypeAluFun func3 ir30 }
  -- the ALU instructions on two registers
  | 0b0110011#7 =>
    { Control.base with
        rfWe := true, rs1Used := true, rs2Used := true, rfSel := wbAlu,
        aluFun := rTypeAluFun func3 ir30 }
  -- the stores
  | 0b0100011#7 =>
    { Control.base with srcBSel := srcbSType, memWe := true, rs2Used := true, rs1Used := true }
  -- the branches
  | 0b1100011#7 => { Control.base with branchI := true, rs1Used := true, rs2Used := true }
  -- `ECALL` and `EBREAK`; any other `SYSTEM` word keeps the base cases
  | 0b1110011#7 => { Control.base with systemCall := func3 == 0b000#3 }
  -- the `default` arm
  | _ =>
    { Control.base with
        aluFun := x.aluFun, srcASel := x.srcASel, srcBSel := x.srcBSel, rfSel := x.rfSel,
        rfWe := x.rfWe, memWe := x.memWe, memRden := x.memRden, branchI := x.branchI,
        jalrI := x.jalrI, jalI := x.jalI, rs1Used := x.rs1Used, rs2Used := x.rs2Used }

end Rv32iPipeline
