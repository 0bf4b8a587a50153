import Mathlib.Tactic.Common

/-!
# `Rv32iPipeline.Spec.Rv32i`: the RV32I instructions

The 37 instructions of RV32I without `FENCE` and `SYSTEM`, each with its encoding and its effect.
Signed comparisons are comparisons of `toInt` and unsigned ones of `toNat`, so that nothing here
rests on the operators of a particular ALU.

`Instr.effect` says what an instruction does at an address with the values of its source
registers: the register it writes, the value (a load has none of its own), the address of the next
instruction, and the memory access.
-/

set_option autoImplicit false

namespace Rv32i

/-- An operand or address. -/
abbrev Word := BitVec 32

/-- A register number. -/
abbrev Reg := BitVec 5

/-! ### Operations -/

/-- The operations on two registers. -/
inductive AluOp where
  | add | sub | sll | slt | sltu | xor | srl | sra | or | and
  deriving DecidableEq, Repr

/-- The shifts take the low five bits of their second operand. -/
def AluOp.eval (a b : Word) : AluOp → Word
  | .add => a + b
  | .sub => a - b
  | .sll => a <<< (b.toNat % 32)
  | .slt => if a.toInt < b.toInt then 1#32 else 0#32
  | .sltu => if a.toNat < b.toNat then 1#32 else 0#32
  | .xor => a ^^^ b
  | .srl => a >>> (b.toNat % 32)
  | .sra => a.sshiftRight (b.toNat % 32)
  | .or => a ||| b
  | .and => a &&& b

/-- The operations with a 12-bit immediate. -/
inductive ImmOp where
  | addi | slti | sltiu | xori | ori | andi
  deriving DecidableEq, Repr

/-- The operation on the sign-extended immediate. -/
def ImmOp.op : ImmOp → AluOp
  | .addi => .add
  | .slti => .slt
  | .sltiu => .sltu
  | .xori => .xor
  | .ori => .or
  | .andi => .and

/-- The shifts by a constant. -/
inductive ShiftOp where
  | slli | srli | srai
  deriving DecidableEq, Repr

/-- The operation on the shift amount. -/
def ShiftOp.op : ShiftOp → AluOp
  | .slli => .sll
  | .srli => .srl
  | .srai => .sra

/-- The branches. -/
inductive BranchOp where
  | beq | bne | blt | bge | bltu | bgeu
  deriving DecidableEq, Repr

/-- The branch is taken. -/
def BranchOp.holds (a b : Word) : BranchOp → Bool
  | .beq => a = b
  | .bne => a ≠ b
  | .blt => a.toInt < b.toInt
  | .bge => b.toInt ≤ a.toInt
  | .bltu => a.toNat < b.toNat
  | .bgeu => b.toNat ≤ a.toNat

/-- The loads. -/
inductive LoadOp where
  | lb | lh | lw | lbu | lhu
  deriving DecidableEq, Repr

/-- The number of bytes. -/
def LoadOp.bytes : LoadOp → ℕ
  | .lb | .lbu => 1
  | .lh | .lhu => 2
  | .lw => 4

/-- The value is zero-extended. -/
def LoadOp.unsigned : LoadOp → Bool
  | .lbu | .lhu => true
  | .lb | .lh | .lw => false

/-- The stores. -/
inductive StoreOp where
  | sb | sh | sw
  deriving DecidableEq, Repr

/-- The number of bytes. -/
def StoreOp.bytes : StoreOp → ℕ
  | .sb => 1
  | .sh => 2
  | .sw => 4

/-! ### Instructions -/

/-- An instruction. `off` is half the offset of a jump or branch: bit 0 is not encoded. -/
inductive Instr where
  | lui (rd : Reg) (imm : BitVec 20)
  | auipc (rd : Reg) (imm : BitVec 20)
  | jal (rd : Reg) (off : BitVec 20)
  | jalr (rd rs1 : Reg) (imm : BitVec 12)
  | branch (op : BranchOp) (rs1 rs2 : Reg) (off : BitVec 12)
  | load (op : LoadOp) (rd rs1 : Reg) (imm : BitVec 12)
  | store (op : StoreOp) (rs1 rs2 : Reg) (imm : BitVec 12)
  | opImm (op : ImmOp) (rd rs1 : Reg) (imm : BitVec 12)
  | shiftImm (op : ShiftOp) (rd rs1 : Reg) (shamt : BitVec 5)
  | opReg (op : AluOp) (rd rs1 rs2 : Reg)
  deriving DecidableEq, Repr

/-! ### Encodings -/

/-- `funct3` of the operations on two registers. -/
def AluOp.funct3 : AluOp → BitVec 3
  | .add | .sub => 0b000#3
  | .sll => 0b001#3
  | .slt => 0b010#3
  | .sltu => 0b011#3
  | .xor => 0b100#3
  | .srl | .sra => 0b101#3
  | .or => 0b110#3
  | .and => 0b111#3

/-- Bit 30 separates `sub` from `add` and `sra` from `srl`. -/
def AluOp.funct7 : AluOp → BitVec 7
  | .sub | .sra => 0b0100000#7
  | _ => 0b0000000#7

/-- `funct3` of the branches. -/
def BranchOp.funct3 : BranchOp → BitVec 3
  | .beq => 0b000#3
  | .bne => 0b001#3
  | .blt => 0b100#3
  | .bge => 0b101#3
  | .bltu => 0b110#3
  | .bgeu => 0b111#3

/-- `funct3` of the loads: size and sign. -/
def LoadOp.funct3 : LoadOp → BitVec 3
  | .lb => 0b000#3
  | .lh => 0b001#3
  | .lw => 0b010#3
  | .lbu => 0b100#3
  | .lhu => 0b101#3

/-- `funct3` of the stores: the size. -/
def StoreOp.funct3 : StoreOp → BitVec 3
  | .sb => 0b000#3
  | .sh => 0b001#3
  | .sw => 0b010#3

/-- Two sources and a destination. The fields of each format stand from bit 31 down. -/
def rType (funct7 : BitVec 7) (rs2 rs1 : Reg) (funct3 : BitVec 3) (rd : Reg) (opcode : BitVec 7) :
    Word :=
  funct7 ++ rs2 ++ rs1 ++ funct3 ++ rd ++ opcode

/-- A 12-bit immediate, one source and a destination. -/
def iType (imm : BitVec 12) (rs1 : Reg) (funct3 : BitVec 3) (rd : Reg) (opcode : BitVec 7) : Word :=
  imm ++ rs1 ++ funct3 ++ rd ++ opcode

/-- A 12-bit immediate around two sources. -/
def sType (imm : BitVec 12) (rs2 rs1 : Reg) (funct3 : BitVec 3) (opcode : BitVec 7) : Word :=
  imm.extractLsb' 5 7 ++ rs2 ++ rs1 ++ funct3 ++ imm.extractLsb' 0 5 ++ opcode

/-- Offset bits 12 and 10:5, two sources, and then offset bits 4:1 and 11. -/
def bType (off : BitVec 12) (rs2 rs1 : Reg) (funct3 : BitVec 3) (opcode : BitVec 7) : Word :=
  off.extractLsb' 11 1 ++ off.extractLsb' 4 6 ++ rs2 ++ rs1 ++ funct3 ++ off.extractLsb' 0 4
    ++ off.extractLsb' 10 1 ++ opcode

/-- A 20-bit immediate and a destination. -/
def uType (imm : BitVec 20) (rd : Reg) (opcode : BitVec 7) : Word :=
  imm ++ rd ++ opcode

/-- Offset bits 20, 10:1, 11 and 19:12, and a destination. -/
def jType (off : BitVec 20) (rd : Reg) (opcode : BitVec 7) : Word :=
  off.extractLsb' 19 1 ++ off.extractLsb' 0 10 ++ off.extractLsb' 10 1 ++ off.extractLsb' 11 8
    ++ rd ++ opcode

/-- The instruction word. -/
def Instr.encode : Instr → Word
  | .lui rd imm => uType imm rd 0b0110111#7
  | .auipc rd imm => uType imm rd 0b0010111#7
  | .jal rd off => jType off rd 0b1101111#7
  | .jalr rd rs1 imm => iType imm rs1 0b000#3 rd 0b1100111#7
  | .branch op rs1 rs2 off => bType off rs2 rs1 op.funct3 0b1100011#7
  | .load op rd rs1 imm => iType imm rs1 op.funct3 rd 0b0000011#7
  | .store op rs1 rs2 imm => sType imm rs2 rs1 op.funct3 0b0100011#7
  | .opImm op rd rs1 imm => iType imm rs1 op.op.funct3 rd 0b0010011#7
  | .shiftImm op rd rs1 shamt => rType op.op.funct7 shamt rs1 op.op.funct3 rd 0b0010011#7
  | .opReg op rd rs1 rs2 => rType op.funct7 rs2 rs1 op.funct3 rd 0b0110011#7

/-! ### Effects -/

/-- The first source register, if the instruction has one. -/
def Instr.rs1 : Instr → Option Reg
  | .jalr _ rs1 _ | .branch _ rs1 _ _ | .load _ _ rs1 _ | .store _ rs1 _ _ | .opImm _ _ rs1 _
  | .shiftImm _ _ rs1 _ | .opReg _ _ rs1 _ => some rs1
  | .lui _ _ | .auipc _ _ | .jal _ _ => none

/-- The second source register. -/
def Instr.rs2 : Instr → Option Reg
  | .branch _ _ rs2 _ | .store _ _ rs2 _ | .opReg _ _ _ rs2 => some rs2
  | _ => none

/-- A memory access: a load with its extension, or a store with its data. -/
inductive Access where
  | load (address : Word) (bytes : ℕ) (unsigned : Bool)
  | store (address : Word) (bytes : ℕ) (data : Word)
  deriving DecidableEq, Repr

/-- What an instruction does. `value` is absent when the value comes from memory. -/
@[ext] structure Effect where
  rd : Option Reg
  value : Option Word
  nextPc : Word
  access : Option Access
  deriving DecidableEq, Repr

/-- An instruction that computes a value and goes on in sequence. -/
def Effect.compute (pc : Word) (rd : Reg) (v : Word) : Effect := ⟨some rd, some v, pc + 4#32, none⟩

/-- The effect at address `pc`, with the values `a` of `rs1` and `b` of `rs2`. -/
def Instr.effect (pc a b : Word) : Instr → Effect
  | .lui rd imm => .compute pc rd (imm ++ 0#12)
  | .auipc rd imm => .compute pc rd (pc + (imm ++ 0#12))
  | .jal rd off => ⟨some rd, some (pc + 4#32), pc + (off ++ 0#1).signExtend 32, none⟩
  -- the target of `jalr` has bit 0 cleared
  | .jalr rd _ imm =>
    ⟨some rd, some (pc + 4#32), (a + imm.signExtend 32) &&& ~~~1#32, none⟩
  | .branch op _ _ off =>
    ⟨none, none, if op.holds a b then pc + (off ++ 0#1).signExtend 32 else pc + 4#32, none⟩
  | .load op rd _ imm =>
    ⟨some rd, none, pc + 4#32, some (.load (a + imm.signExtend 32) op.bytes op.unsigned)⟩
  | .store op _ _ imm =>
    ⟨none, none, pc + 4#32, some (.store (a + imm.signExtend 32) op.bytes b)⟩
  | .opImm op rd _ imm => .compute pc rd (op.op.eval a (imm.signExtend 32))
  | .shiftImm op rd _ shamt => .compute pc rd (op.op.eval a (shamt.setWidth 32))
  | .opReg op rd _ _ => .compute pc rd (op.eval a b)

/-- An instruction without a first source does not depend on its value. -/
theorem Instr.effect_congr_rs1 {i : Instr} (h : i.rs1 = none) (pc a a' b : Word) :
    i.effect pc a b = i.effect pc a' b := by
  cases i with
  | lui rd imm => rfl
  | auipc rd imm => rfl
  | jal rd off => rfl
  | _ => exact absurd h (Option.some_ne_none _)

/-- An instruction without a second source does not depend on its value. -/
theorem Instr.effect_congr_rs2 {i : Instr} (h : i.rs2 = none) (pc a b b' : Word) :
    i.effect pc a b = i.effect pc a b' := by
  cases i with
  | branch op rs1 rs2 off => exact absurd h (Option.some_ne_none _)
  | store op rs1 rs2 imm => exact absurd h (Option.some_ne_none _)
  | opReg op rd rs1 rs2 => exact absurd h (Option.some_ne_none _)
  | _ => rfl

end Rv32i
