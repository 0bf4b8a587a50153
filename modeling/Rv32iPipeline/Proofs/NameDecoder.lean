import Rv32iPipeline.Proofs.Decode
import Rv32iPipeline.Proofs.Execute

/-!
# `Rv32iPipeline.Proofs.NameDecoder`: the names of `decode_instr_name` and the executed operations

Two decoders look at an instruction word. `decode_instr_name` names it from the opcode, `funct3`
and all of `funct7`. `Control_Unit_Decoder` sees the opcode, `funct3` and `ir[30]`, and `DMEM` and
`PC_Decoder` read `funct3` again. ID/EX carries the results of both.

`named_as_executed_iff`: the operation in ID/EX is the one its name stands for, and an `UNKNOWN`
word has no effect, for every word but the ones of `isReservedForm`: loads and stores of a reserved
`funct3`, right shifts by a constant with a reserved `funct7`, and register operations with `ir[30]`
set in a reserved `funct7`.
-/

set_option autoImplicit false

namespace Rv32iPipeline

open Rv32i (BranchOp Effect)

/-! ### Operations -/

/-- What the control bits of an instruction ask for. A part that stays idle is `none`. -/
@[ext] structure Operation where
  /-- `ALU_FUN` with the operand selects, where the result is written back or is an address. -/
  alu : Option (BitVec 4 × Bool × BitVec 2)
  /-- `RF_SEL` of a register write. -/
  writeBack : Option (BitVec 2)
  /-- Size and sign of a memory read. -/
  load : Option (BitVec 2 × Bool)
  /-- Size of a memory write. -/
  store : Option (BitVec 2)
  /-- A branch on these operands is taken. -/
  branch : Word → Word → Bool
  jal : Bool
  jalr : Bool
  systemCall : Bool

namespace Operation

/-- Nothing is asked for. -/
def idle : Operation := ⟨none, none, none, none, fun _ _ => false, false, false, false⟩

/-- An ALU result goes to a register. -/
def compute (aluFun : BitVec 4) (srcASel : Bool) (srcBSel : BitVec 2) : Operation :=
  { idle with alu := some (aluFun, srcASel, srcBSel), writeBack := some wbAlu }

/-- `rs1` and the I-type immediate address a read. -/
def read (size : BitVec 2) (sign : Bool) : Operation :=
  { idle with
      alu := some (aluAdd, srcaRs1, srcbIType), writeBack := some wbDataIn,
      load := some (size, sign) }

/-- `rs1` and the S-type immediate address a write. -/
def write (size : BitVec 2) : Operation :=
  { idle with alu := some (aluAdd, srcaRs1, srcbSType), store := some size }

/-- A conditional branch. -/
def branchOn (op : BranchOp) : Operation := { idle with branch := fun a b => op.holds a b }

/-- An operation that writes a register is not idle. -/
theorem compute_ne_idle (f : BitVec 4) (a : Bool) (b : BitVec 2) : compute f a b ≠ idle :=
  fun h => absurd (congrArg writeBack h) (Option.some_ne_none _)

theorem read_ne_idle (size : BitVec 2) (sign : Bool) : read size sign ≠ idle :=
  fun h => absurd (congrArg writeBack h) (Option.some_ne_none _)

/-- An operation that writes memory is not idle. -/
theorem write_ne_idle (size : BitVec 2) : write size ≠ idle :=
  fun h => absurd (congrArg store h) (Option.some_ne_none _)

end Operation

/-- The operation that a name stands for. -/
def InstrName.operation : InstrName → Operation
  | .lui => .compute aluLuiCopy srcaUType srcbRs2
  | .auipc => .compute aluAdd srcaUType srcbPc
  | .jal => { Operation.idle with writeBack := some wbPc4, jal := true }
  | .jalr => { Operation.idle with writeBack := some wbPc4, jalr := true }
  | .lb => .read 0b00#2 false
  | .lh => .read 0b01#2 false
  | .lw => .read 0b10#2 false
  | .lbu => .read 0b00#2 true
  | .lhu => .read 0b01#2 true
  | .addi => .compute aluAdd srcaRs1 srcbIType
  | .slti => .compute aluSlt srcaRs1 srcbIType
  | .sltiu => .compute aluSltu srcaRs1 srcbIType
  | .ori => .compute aluOr srcaRs1 srcbIType
  | .xori => .compute aluXor srcaRs1 srcbIType
  | .andi => .compute aluAnd srcaRs1 srcbIType
  | .slli => .compute aluSll srcaRs1 srcbIType
  | .srli => .compute aluSrl srcaRs1 srcbIType
  | .srai => .compute aluSra srcaRs1 srcbIType
  | .beq => .branchOn .beq
  | .bne => .branchOn .bne
  | .blt => .branchOn .blt
  | .bge => .branchOn .bge
  | .bltu => .branchOn .bltu
  | .bgeu => .branchOn .bgeu
  | .sb => .write 0b00#2
  | .sh => .write 0b01#2
  | .sw => .write 0b10#2
  | .add => .compute aluAdd srcaRs1 srcbRs2
  | .sub => .compute aluSub srcaRs1 srcbRs2
  | .sll => .compute aluSll srcaRs1 srcbRs2
  | .slt => .compute aluSlt srcaRs1 srcbRs2
  | .sltu => .compute aluSltu srcaRs1 srcbRs2
  | .xor => .compute aluXor srcaRs1 srcbRs2
  | .srl => .compute aluSrl srcaRs1 srcbRs2
  | .sra => .compute aluSra srcaRs1 srcbRs2
  | .or => .compute aluOr srcaRs1 srcbRs2
  | .and => .compute aluAnd srcaRs1 srcbRs2
  | .ecallEbreak => { Operation.idle with systemCall := true }
  -- a fence has nothing to order in this core
  | .fence => .idle
  | .unknown => .idle

/-- The operation that the control bits in ID/EX execute. -/
def IdEx.operation (d : IdEx) : Operation where
  alu :=
    if d.memWe || d.memRden || (d.rfWe && d.rfSel == wbAlu) then
      some (d.aluFun, d.srcASel, d.srcBSel)
    else none
  writeBack := if d.rfWe then some d.rfSel else none
  load := if d.memRden then some (d.memSize, d.memSign) else none
  store := if d.memWe then some d.memSize else none
  branch := fun a b => d.pcSel a b == pcBranch
  jal := d.jalI
  jalr := d.jalrI
  systemCall := d.trap

/-- No enable is asserted and no branch is taken. -/
structure IdEx.Inert (d : IdEx) : Prop where
  rfWe : d.rfWe = false
  memWe : d.memWe = false
  memRden : d.memRden = false
  jalI : d.jalI = false
  jalrI : d.jalrI = false
  trap : d.trap = false
  branch : ∀ a b, d.pcSel a b ≠ pcBranch

/-- The name in ID/EX stands for the operation in ID/EX. An instruction named `UNKNOWN` is inert:
it goes on at `PC + 4` and has no other effect. -/
structure IdEx.NamedAsExecuted (d : IdEx) : Prop where
  operation : d.operation = d.instruction.operation
  unknown : d.instruction = .unknown →
    d.Inert ∧ ∀ a b, d.Performs d.pc a b ⟨none, none, d.pc + 4#32, none⟩

/-- A part of an operation is absent only with its enable low. -/
theorem eq_false_of_part_none {α : Type} {en : Bool} {v : α}
    (h : (if en then some v else none) = none) : en = false := by
  cases en with
  | false => rfl
  | true => exact absurd h (Option.some_ne_none v)

/-- An idle operation leaves every enable low. -/
theorem IdEx.inert_of_operation {d : IdEx} (h : d.operation = .idle) : d.Inert where
  rfWe := eq_false_of_part_none (congrArg Operation.writeBack h)
  memWe := eq_false_of_part_none (congrArg Operation.store h)
  memRden := eq_false_of_part_none (congrArg Operation.load h)
  jalI := congrArg Operation.jal h
  jalrI := congrArg Operation.jalr h
  trap := congrArg Operation.systemCall h
  branch a b := by
    have hbr : (d.pcSel a b == pcBranch) = false :=
      congrFun (congrFun (congrArg Operation.branch h) a) b
    exact ne_of_beq_false hbr

/-- Inert contents of ID/EX have no effect. -/
theorem IdEx.Inert.performs {d : IdEx} (h : d.Inert) (a b : Word) :
    d.Performs d.pc a b ⟨none, none, d.pc + 4#32, none⟩ where
  rd := by rw [h.rfWe]; rfl
  value hwe := absurd (h.rfWe.symm.trans hwe) Bool.false_ne_true
  nextPc := by
    have hsel : d.pcSel a b = pcPc4 := by
      apply IdEx.Coherent.pcSel_of_not_taken
      rw [IdEx.taken, h.jalI, h.jalrI, beq_false_of_ne (h.branch a b), Bool.and_false]
      rfl
    rw [hsel]
    rfl
  access := by
    rw [IdEx.requests, h.memWe, h.memRden]
    rfl

/-- The name decides the second half: only the operations have to be compared. -/
theorem IdEx.namedAsExecuted_iff (d : IdEx) :
    d.NamedAsExecuted ↔ d.operation = d.instruction.operation := by
  constructor
  · exact fun h => h.operation
  · intro h
    refine ⟨h, fun hname => ?_⟩
    rw [hname] at h
    have hinert : d.Inert := IdEx.inert_of_operation h
    exact ⟨hinert, hinert.performs⟩

/-! ### The reserved forms -/

/-- The words that the two decoders tell apart differently. -/
def isReservedForm (w : Word) : Bool :=
  match opcodeOf w with
  -- a load with no size, or an unsigned word
  | 0b0000011#7 => [0b011#3, 0b110#3, 0b111#3].contains (funct3Of w)
  -- a store with no size, or with the sign bit of a load
  | 0b0100011#7 => !([0b000#3, 0b001#3, 0b010#3].contains (funct3Of w))
  -- a right shift by a constant that is neither `SRLI` nor `SRAI`
  | 0b0010011#7 =>
    funct3Of w == 0b101#3 && !([0b0000000#7, 0b0100000#7].contains (funct7Of w))
  -- `ir[30]` set, and more of `funct7` with it
  | 0b0110011#7 =>
    [0b000#3, 0b101#3].contains (funct3Of w) && w.getLsbD 30 && funct7Of w != 0b0100000#7
  | _ => false

/-- The eight values of `funct3`. -/
theorem funct3_cases (f3 : BitVec 3) :
    f3 = 0b000#3 ∨ f3 = 0b001#3 ∨ f3 = 0b010#3 ∨ f3 = 0b011#3 ∨ f3 = 0b100#3 ∨ f3 = 0b101#3 ∨
      f3 = 0b110#3 ∨ f3 = 0b111#3 := by
  revert f3
  decide

section
variable {w : Word} (pc : Word) (regs : Registers)

/-- A load: `funct3` is the size and the sign, whatever it is. -/
theorem operation_load (h : opcodeOf w = 0b0000011#7) :
    (idExD (ifIdD pc w) regs DontCare.zero).operation
      = .read ((funct3Of w).extractLsb' 0 2) ((funct3Of w).getLsbD 2) := by
  simp only [idExD, ifIdD, h, memSize_eq, memSign_eq]
  rfl

/-- A store: the low bits of `funct3` are the size. -/
theorem operation_store (h : opcodeOf w = 0b0100011#7) :
    (idExD (ifIdD pc w) regs DontCare.zero).operation
      = .write ((funct3Of w).extractLsb' 0 2) := by
  simp only [idExD, ifIdD, h, memSize_eq]
  rfl

/-- An ALU instruction with an immediate. -/
theorem operation_opImm (h : opcodeOf w = 0b0010011#7) :
    (idExD (ifIdD pc w) regs DontCare.zero).operation
      = .compute (iTypeAluFun (funct3Of w) (w.getLsbD 30)) srcaRs1 srcbIType := by
  simp only [idExD, ifIdD, h]
  rfl

/-- An ALU instruction on two registers. -/
theorem operation_opReg (h : opcodeOf w = 0b0110011#7) :
    (idExD (ifIdD pc w) regs DontCare.zero).operation
      = .compute (rTypeAluFun (funct3Of w) (w.getLsbD 30)) srcaRs1 srcbRs2 := by
  simp only [idExD, ifIdD, h]
  rfl

/-- A branch: `PC_Decoder` reads `funct3`. -/
theorem operation_branch (h : opcodeOf w = 0b1100011#7) :
    (idExD (ifIdD pc w) regs DontCare.zero).operation
      = { Operation.idle with
            branch := fun a b =>
              pcDecoder (branchConditionGenerator a b) true false false (funct3Of w)
                == pcBranch } := by
  simp only [idExD, ifIdD, h]
  rfl

end

/-! ### Agreement, opcode by opcode -/

section
variable {w : Word}

/-- The names of the loads stand for the sizes and signs that exist. -/
theorem named_load_iff (h : opcodeOf w = 0b0000011#7) :
    Operation.read ((funct3Of w).extractLsb' 0 2) ((funct3Of w).getLsbD 2)
        = (decodeInstrName w).operation ↔ isReservedForm w = false := by
  simp only [decodeInstrName, isReservedForm, h]
  rcases funct3_cases (funct3Of w) with hf | hf | hf | hf | hf | hf | hf | hf <;> rw [hf]
  -- the three `funct3` values without a name
  case inr.inr.inr.inl | inr.inr.inr.inr.inr.inr.inl | inr.inr.inr.inr.inr.inr.inr =>
    exact iff_of_false (Operation.read_ne_idle _ _) (by decide)
  all_goals exact iff_of_true rfl rfl

/-- The names of the stores stand for the sizes that exist. -/
theorem named_store_iff (h : opcodeOf w = 0b0100011#7) :
    Operation.write ((funct3Of w).extractLsb' 0 2) = (decodeInstrName w).operation
      ↔ isReservedForm w = false := by
  simp only [decodeInstrName, isReservedForm, h]
  rcases funct3_cases (funct3Of w) with hf | hf | hf | hf | hf | hf | hf | hf <;> rw [hf]
  case inl | inr.inl | inr.inr.inl => exact iff_of_true rfl rfl
  all_goals exact iff_of_false (Operation.write_ne_idle _) (by decide)

/-- The right shifts by a constant need a `funct7` of their own. -/
theorem named_opImm_iff (h : opcodeOf w = 0b0010011#7) :
    Operation.compute (iTypeAluFun (funct3Of w) (w.getLsbD 30)) srcaRs1 srcbIType
        = (decodeInstrName w).operation ↔ isReservedForm w = false := by
  simp only [decodeInstrName, isReservedForm, h, ir30_eq]
  rcases funct3_cases (funct3Of w) with hf | hf | hf | hf | hf | hf | hf | hf <;> simp only [hf]
  case inr.inr.inr.inr.inr.inl =>
    by_cases hsrl : funct7Of w = 0b0000000#7
    · rw [hsrl]
      exact iff_of_true rfl rfl
    by_cases hsra : funct7Of w = 0b0100000#7
    · rw [hsra]
      exact iff_of_true rfl rfl
    -- named `UNKNOWN`, executed as a shift
    have hres : (0b101#3 == 0b101#3 &&
        !([0b0000000#7, 0b0100000#7].contains (funct7Of w))) = true := by
      simp [hsrl, hsra]
    rw [hres]
    refine iff_of_false ?_ (by decide)
    split
    · contradiction
    · contradiction
    · exact Operation.compute_ne_idle _ _ _
  all_goals exact iff_of_true rfl rfl

/-- The name of a subtraction or an arithmetic shift needs all of `funct7`, the operation only
`ir[30]`. -/
theorem named_opReg_iff (h : opcodeOf w = 0b0110011#7) :
    Operation.compute (rTypeAluFun (funct3Of w) (w.getLsbD 30)) srcaRs1 srcbRs2
        = (decodeInstrName w).operation ↔ isReservedForm w = false := by
  simp only [decodeInstrName, isReservedForm, h, ir30_eq]
  rcases funct3_cases (funct3Of w) with hf | hf | hf | hf | hf | hf | hf | hf <;> simp only [hf]
  case inl | inr.inr.inr.inr.inr.inl =>
    by_cases hf7 : funct7Of w = 0b0100000#7
    · rw [hf7]
      exact iff_of_true rfl rfl
    · rw [if_neg hf7]
      cases hbit : (funct7Of w).getLsbD 5 with
      | false => exact iff_of_true rfl rfl
      | true =>
          -- named after the function of `ir[30]` low
          refine iff_of_false (fun heq => ?_) (by simp [hf7])
          exact absurd (congrArg Operation.alu heq) (by decide)
  all_goals exact iff_of_true rfl rfl

/-- `PC_Decoder` takes no branch of a reserved `funct3`, and decides the named ones as their
names say. -/
theorem named_branch (h : opcodeOf w = 0b1100011#7) :
    { Operation.idle with
        branch := fun a b =>
          pcDecoder (branchConditionGenerator a b) true false false (funct3Of w) == pcBranch }
      = (decodeInstrName w).operation := by
  have hnamed : ∀ op : BranchOp, { Operation.idle with
      branch := fun a b =>
        pcDecoder (branchConditionGenerator a b) true false false op.funct3 == pcBranch }
      = Operation.branchOn op := by
    intro op
    refine congrArg (fun f => { Operation.idle with branch := f }) ?_
    funext a b
    rw [pcDecoder_branch]
    cases op.holds a b <;> rfl
  simp only [decodeInstrName, h]
  rcases funct3_cases (funct3Of w) with hf | hf | hf | hf | hf | hf | hf | hf <;> rw [hf]
  case inl => exact hnamed .beq
  case inr.inl => exact hnamed .bne
  case inr.inr.inr.inr.inl => exact hnamed .blt
  case inr.inr.inr.inr.inr.inl => exact hnamed .bge
  case inr.inr.inr.inr.inr.inr.inl => exact hnamed .bltu
  case inr.inr.inr.inr.inr.inr.inr => exact hnamed .bgeu
  all_goals rfl

end

/-- The words of every other opcode are named as they are executed. -/
theorem named_other (pc : Word) (regs : Registers) {w : Word} (hload : opcodeOf w ≠ 0b0000011#7)
    (hstore : opcodeOf w ≠ 0b0100011#7) (himm : opcodeOf w ≠ 0b0010011#7)
    (hreg : opcodeOf w ≠ 0b0110011#7) :
    (idExD (ifIdD pc w) regs DontCare.zero).operation = (decodeInstrName w).operation := by
  by_cases hbranch : opcodeOf w = 0b1100011#7
  · rw [operation_branch pc regs hbranch]
    exact named_branch hbranch
  by_cases hsys : opcodeOf w = 0b1110011#7
  · simp only [idExD, ifIdD, decodeInstrName, hsys]
    rcases funct3_cases (funct3Of w) with hf | hf | hf | hf | hf | hf | hf | hf <;>
      simp only [hf] <;> rfl
  -- the jumps, the U-type instructions and `FENCE`, and then the unnamed opcodes
  simp only [idExD, ifIdD, decodeInstrName, controlUnitDecoder]
  split <;> rename_i hop <;> try contradiction
  case h_12 =>
      -- no arm of the control decoder: the name decoder has none either
      split <;> first | contradiction | rfl
  all_goals
    simp only [hop]
    rfl

/-- **The two decoders agree exactly outside the reserved forms.** At every address and for every
register file, the operation that ID/EX executes is the one that its name stands for, and an
instruction named `UNKNOWN` asserts no enable, takes no branch and has no effect, if and only if
the word is of none of the reserved forms. -/
theorem named_as_executed_iff (pc : Word) (regs : Registers) (w : Word) :
    (idExD (ifIdD pc w) regs DontCare.zero).NamedAsExecuted ↔ isReservedForm w = false := by
  rw [IdEx.namedAsExecuted_iff]
  show (idExD (ifIdD pc w) regs DontCare.zero).operation = (decodeInstrName w).operation ↔ _
  by_cases hload : opcodeOf w = 0b0000011#7
  · rw [operation_load pc regs hload]
    exact named_load_iff hload
  by_cases hstore : opcodeOf w = 0b0100011#7
  · rw [operation_store pc regs hstore]
    exact named_store_iff hstore
  by_cases himm : opcodeOf w = 0b0010011#7
  · rw [operation_opImm pc regs himm]
    exact named_opImm_iff himm
  by_cases hreg : opcodeOf w = 0b0110011#7
  · rw [operation_opReg pc regs hreg]
    exact named_opReg_iff hreg
  · refine iff_of_true (named_other pc regs hload hstore himm hreg) ?_
    unfold isReservedForm
    split <;> first | contradiction | rfl

/-- `0x0000B083` is a load into `x1` with `funct3` 011. It is named `UNKNOWN`, and it reads memory
and writes its register. -/
theorem unknown_load_executed :
    let d := idExD (ifIdD 0#32 0x0000B083#32) (fun _ => 0#32) DontCare.zero
    d.instruction = .unknown ∧ d.rfWe = true ∧ d.memRden = true ∧ ¬d.NamedAsExecuted := by
  have hname : decodeInstrName 0x0000B083#32 = .unknown := by decide
  have hwe : (idExD (ifIdD 0#32 0x0000B083#32) (fun _ => 0#32) DontCare.zero).rfWe = true := by
    decide
  have hrden :
      (idExD (ifIdD 0#32 0x0000B083#32) (fun _ => 0#32) DontCare.zero).memRden = true := by
    decide
  refine ⟨hname, hwe, hrden, fun h => ?_⟩
  exact absurd (hwe.symm.trans (h.unknown hname).1.rfWe) (by decide)

end Rv32iPipeline
