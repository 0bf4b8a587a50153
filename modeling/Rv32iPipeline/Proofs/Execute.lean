import Rv32iPipeline.Proofs.DataMemory
import Rv32iPipeline.Proofs.Encoding

/-!
# `Rv32iPipeline.Proofs.Execute`: decode and execute implement RV32I

`IdEx.Performs` compares the EX stage, run on the contents of ID/EX and any two operand values,
with an effect of `Rv32i`: the write port, the output of the write-back mux, the output of the PC
mux, and the memory requests on the bus pins.

`executes_rv32i`: the decode stage turns every encoded instruction into contents of ID/EX that
perform the instruction's effect, for every address and every operand values, and it marks every
source register that the effect depends on as used.
-/

set_option autoImplicit false

namespace Rv32iPipeline

open Rv32i (Instr AluOp ImmOp ShiftOp BranchOp LoadOp StoreOp Effect Access)

/-- The memory requests of the instruction in EX, as the bus pins carry them. -/
def IdEx.requests (d : IdEx) (a b : Word) : List Access :=
  (if d.memWe then [.store (d.aluResult a b) (accessBytes d.memSize) b] else []) ++
    if d.memRden then [.load (d.aluResult a b) (accessBytes d.memSize) d.memSign] else []

/-- The instruction `d` with `a` and `b` on its operand ports has the effect `e` at `pc`. A value
that the effect leaves to memory is the bus answer. -/
structure IdEx.Performs (d : IdEx) (pc a b : Word) (e : Effect) : Prop where
  rd : (if d.rfWe then some d.regWriteAddr else none) = e.rd
  value : d.rfWe = true → ∀ dataIn busAnswer x,
    (exMemD d (d.aluResult a b) dataIn).writeData busAnswer x = e.value.getD busAnswer
  nextPc : programCounter false (d.pcSel a b) (pc + 4#32) (d.targets a) = e.nextPc
  access : d.requests a b = e.access.toList

/-! ### The blocks -/

/-- The ALU on the function code of a register operation. -/
theorem alu_rTypeAluFun (op : AluOp) (a b : Word) :
    alu a b (rTypeAluFun op.funct3 (op.funct7.getLsbD 5)) = op.eval a b := by
  have hamount : (b.extractLsb' 0 5).toNat = b.toNat % 32 := by
    rw [BitVec.extractLsb'_toNat]
    rfl
  cases op with
  | sll =>
      show a <<< b.extractLsb' 0 5 = a <<< (b.toNat % 32)
      rw [BitVec.shiftLeft_eq', hamount]
  | srl =>
      show a >>> b.extractLsb' 0 5 = a >>> (b.toNat % 32)
      rw [BitVec.ushiftRight_eq', hamount]
  | sra =>
      show a.sshiftRight' (b.extractLsb' 0 5) = a.sshiftRight (b.toNat % 32)
      rw [BitVec.sshiftRight', hamount]
  | slt =>
      show (if a.slt b then 1#32 else 0#32) = if a.toInt < b.toInt then 1#32 else 0#32
      simp only [BitVec.slt, decide_eq_true_eq]
  | sltu =>
      show (if a.ult b then 1#32 else 0#32) = if a.toNat < b.toNat then 1#32 else 0#32
      simp only [BitVec.ult, decide_eq_true_eq]
  | _ => rfl

/-- The I-type arm has the same function codes, whatever `ir[30]` is. -/
theorem iTypeAluFun_immOp (op : ImmOp) (ir30 : Bool) :
    iTypeAluFun op.op.funct3 ir30 = rTypeAluFun op.op.funct3 (op.op.funct7.getLsbD 5) := by
  cases op <;> rfl

/-- The shifts of the I-type arm go by `ir[30]`. -/
theorem iTypeAluFun_shiftOp (op : ShiftOp) :
    iTypeAluFun op.op.funct3 (op.op.funct7.getLsbD 5)
      = rTypeAluFun op.op.funct3 (op.op.funct7.getLsbD 5) := by
  cases op <;> rfl

/-- A shift listens to the low five bits of its amount. -/
theorem eval_shiftOp_congr (op : ShiftOp) (a : Word) {b : Word} {shamt : BitVec 5}
    (h : b.extractLsb' 0 5 = shamt) : op.op.eval a b = op.op.eval a (shamt.setWidth 32) := by
  have hlow : b.toNat % 32 = (shamt.setWidth 32).toNat % 32 := by
    rw [← h, BitVec.toNat_setWidth, BitVec.extractLsb'_toNat, Nat.shiftRight_zero]
    omega
  cases op <;> simp only [ShiftOp.op, AluOp.eval, hlow]

/-- `PC_Decoder` and the comparator decide a branch. -/
theorem pcDecoder_branch (op : BranchOp) (a b : Word) :
    pcDecoder (branchConditionGenerator a b) true false false op.funct3
      = if op.holds a b then pcBranch else pcPc4 := by
  cases op <;>
    simp [pcDecoder, branchConditionGenerator, BranchOp.holds, BranchOp.funct3, BitVec.slt,
      BitVec.ult]

/-- The size and the sign on the bus are `func3` of the word. -/
theorem memSize_eq (w : Word) : w.extractLsb' 12 2 = (funct3Of w).extractLsb' 0 2 := by
  apply BitVec.eq_of_getLsbD_eq
  intro i hi
  simp only [funct3Of, BitVec.getLsbD_extractLsb']
  grind

theorem memSign_eq (w : Word) : w.getLsbD 14 = (funct3Of w).getLsbD 2 := by
  rw [funct3Of, BitVec.getLsbD_extractLsb']
  rfl

/-- Bit 30 belongs to `funct7`. -/
theorem ir30_eq (w : Word) : w.getLsbD 30 = (funct7Of w).getLsbD 5 := by
  rw [funct7Of, BitVec.getLsbD_extractLsb']
  rfl

/-- `func3` of a load is its size and sign. -/
theorem accessBytes_loadOp (op : LoadOp) :
    accessBytes (op.funct3.extractLsb' 0 2) = op.bytes ∧ op.funct3.getLsbD 2 = op.unsigned := by
  cases op <;> exact ⟨rfl, rfl⟩

/-- `func3` of a store is its size. -/
theorem accessBytes_storeOp (op : StoreOp) :
    accessBytes (op.funct3.extractLsb' 0 2) = op.bytes := by
  cases op <;> rfl

/-! ### The instructions -/

section
variable (pc a b : Word) (regs : Registers) (x : DontCare) (rd rs1 rs2 : BitVec 5)

theorem performs_lui (imm : BitVec 20) :
    (idExD (ifIdD pc (Instr.lui rd imm).encode) regs x).Performs pc a b
      ((Instr.lui rd imm).effect pc a b) := by
  obtain ⟨hop, hrd⟩ := uType_fields rd 0b0110111#7 imm
  have himm := uType_immediate rd 0b0110111#7 imm
  simp only [idExD, ifIdD, Instr.encode, hop, hrd]
  exact ⟨rfl, fun _ _ _ _ => himm, rfl, rfl⟩

/-- The immediate is on port A and the PC on port B. -/
theorem performs_auipc (imm : BitVec 20) :
    (idExD (ifIdD pc (Instr.auipc rd imm).encode) regs x).Performs pc a b
      ((Instr.auipc rd imm).effect pc a b) := by
  obtain ⟨hop, hrd⟩ := uType_fields rd 0b0010111#7 imm
  have himm := uType_immediate rd 0b0010111#7 imm
  have hvalue : (immediatesOf (Rv32i.uType imm rd 0b0010111#7)).uType + pc
      = pc + (imm ++ 0#12) := by
    rw [himm, BitVec.add_comm]
  simp only [idExD, ifIdD, Instr.encode, hop, hrd]
  exact ⟨rfl, fun _ _ _ _ => hvalue, rfl, rfl⟩

theorem performs_jal (off : BitVec 20) :
    (idExD (ifIdD pc (Instr.jal rd off).encode) regs x).Performs pc a b
      ((Instr.jal rd off).effect pc a b) := by
  obtain ⟨hop, hrd⟩ := jType_fields rd 0b1101111#7 off
  have himm := jType_immediate rd 0b1101111#7 off
  have htarget : pc + (immediatesOf (Rv32i.jType off rd 0b1101111#7)).jType
      = pc + (off ++ 0#1).signExtend 32 := by rw [himm]
  simp only [idExD, ifIdD, Instr.encode, hop, hrd]
  exact ⟨rfl, fun _ _ _ _ => rfl, htarget, rfl⟩

/-- The target adder takes the base second, and its mask is the complement of 1. -/
theorem performs_jalr (imm : BitVec 12) :
    (idExD (ifIdD pc (Instr.jalr rd rs1 imm).encode) regs x).Performs pc a b
      ((Instr.jalr rd rs1 imm).effect pc a b) := by
  obtain ⟨hop, hrd, -, -⟩ := iType_fields rd rs1 0b000#3 0b1100111#7 imm
  have himm := iType_immediate rd rs1 0b000#3 0b1100111#7 imm
  have htarget : ((immediatesOf (Rv32i.iType imm rs1 0b000#3 rd 0b1100111#7)).iType + a)
      &&& 0xFFFFFFFE#32 = (a + imm.signExtend 32) &&& ~~~1#32 := by
    rw [himm, BitVec.add_comm]
    rfl
  simp only [idExD, ifIdD, Instr.encode, hop, hrd]
  exact ⟨rfl, fun _ _ _ _ => rfl, htarget, rfl⟩

theorem performs_branch (op : BranchOp) (off : BitVec 12) :
    (idExD (ifIdD pc (Instr.branch op rs1 rs2 off).encode) regs x).Performs pc a b
      ((Instr.branch op rs1 rs2 off).effect pc a b) := by
  obtain ⟨hop, hf3, -, -⟩ := bType_fields rs1 rs2 op.funct3 0b1100011#7 off
  have himm := bType_immediate rs1 rs2 op.funct3 0b1100011#7 off
  simp only [idExD, ifIdD, Instr.encode, hop, hf3]
  refine ⟨rfl, fun h => absurd h Bool.false_ne_true, ?_, rfl⟩
  show programCounter false
      (pcDecoder (branchConditionGenerator a b) true false false op.funct3) (pc + 4#32) _
    = if op.holds a b then pc + (off ++ 0#1).signExtend 32 else pc + 4#32
  rw [pcDecoder_branch]
  split
  · rw [← himm]
    rfl
  · rfl

theorem performs_load (op : LoadOp) (imm : BitVec 12) :
    (idExD (ifIdD pc (Instr.load op rd rs1 imm).encode) regs x).Performs pc a b
      ((Instr.load op rd rs1 imm).effect pc a b) := by
  obtain ⟨hop, hrd, hf3, -⟩ := iType_fields rd rs1 op.funct3 0b0000011#7 imm
  have himm := iType_immediate rd rs1 op.funct3 0b0000011#7 imm
  obtain ⟨hsize, hsign⟩ := accessBytes_loadOp op
  simp only [idExD, ifIdD, Instr.encode, hop, hrd, memSize_eq, memSign_eq, hf3]
  refine ⟨rfl, fun _ _ _ _ => rfl, rfl, ?_⟩
  show [Access.load (a + _) (accessBytes (op.funct3.extractLsb' 0 2)) (op.funct3.getLsbD 2)]
    = [Access.load (a + imm.signExtend 32) op.bytes op.unsigned]
  rw [hsize, hsign, ← himm]
  rfl

theorem performs_store (op : StoreOp) (imm : BitVec 12) :
    (idExD (ifIdD pc (Instr.store op rs1 rs2 imm).encode) regs x).Performs pc a b
      ((Instr.store op rs1 rs2 imm).effect pc a b) := by
  obtain ⟨hop, hf3, -, -⟩ := sType_fields rs1 rs2 op.funct3 0b0100011#7 imm
  have himm := sType_immediate rs1 rs2 op.funct3 0b0100011#7 imm
  simp only [idExD, ifIdD, Instr.encode, hop, memSize_eq, memSign_eq, hf3]
  refine ⟨rfl, fun h => absurd h Bool.false_ne_true, rfl, ?_⟩
  show [Access.store (a + _) (accessBytes (op.funct3.extractLsb' 0 2)) b]
    = [Access.store (a + imm.signExtend 32) op.bytes b]
  rw [accessBytes_storeOp op, ← himm]
  rfl

theorem performs_opImm (op : ImmOp) (imm : BitVec 12) :
    (idExD (ifIdD pc (Instr.opImm op rd rs1 imm).encode) regs x).Performs pc a b
      ((Instr.opImm op rd rs1 imm).effect pc a b) := by
  obtain ⟨hop, hrd, hf3, -⟩ := iType_fields rd rs1 op.op.funct3 0b0010011#7 imm
  have himm := iType_immediate rd rs1 op.op.funct3 0b0010011#7 imm
  simp only [idExD, ifIdD, Instr.encode, hop, hrd, hf3]
  refine ⟨rfl, fun _ _ _ _ => ?_, rfl, rfl⟩
  show alu a (immediatesOf _).iType (iTypeAluFun op.op.funct3 _)
    = op.op.eval a (imm.signExtend 32)
  rw [himm, iTypeAluFun_immOp, alu_rTypeAluFun]

theorem performs_shiftImm (op : ShiftOp) (shamt : BitVec 5) :
    (idExD (ifIdD pc (Instr.shiftImm op rd rs1 shamt).encode) regs x).Performs pc a b
      ((Instr.shiftImm op rd rs1 shamt).effect pc a b) := by
  obtain ⟨hop, hrd, hf3, -, -, hf7⟩ :=
    rType_fields rd rs1 shamt op.op.funct3 op.op.funct7 0b0010011#7
  have hamount := rType_shamt rd rs1 shamt op.op.funct3 op.op.funct7 0b0010011#7
  simp only [idExD, ifIdD, Instr.encode, hop, hrd, hf3, ir30_eq, hf7]
  refine ⟨rfl, fun _ _ _ _ => ?_, rfl, rfl⟩
  show alu a (immediatesOf _).iType (iTypeAluFun op.op.funct3 (op.op.funct7.getLsbD 5))
    = op.op.eval a (shamt.setWidth 32)
  rw [iTypeAluFun_shiftOp, alu_rTypeAluFun]
  exact eval_shiftOp_congr op a hamount

theorem performs_opReg (op : AluOp) :
    (idExD (ifIdD pc (Instr.opReg op rd rs1 rs2).encode) regs x).Performs pc a b
      ((Instr.opReg op rd rs1 rs2).effect pc a b) := by
  obtain ⟨hop, hrd, hf3, -, -, hf7⟩ := rType_fields rd rs1 rs2 op.funct3 op.funct7 0b0110011#7
  simp only [idExD, ifIdD, Instr.encode, hop, hrd, hf3, ir30_eq, hf7]
  refine ⟨rfl, fun _ _ _ _ => ?_, rfl, rfl⟩
  show alu a b (rTypeAluFun op.funct3 (op.funct7.getLsbD 5)) = op.eval a b
  exact alu_rTypeAluFun op a b

/-- Every instruction performs its effect. -/
theorem idExD_performs (i : Instr) :
    (idExD (ifIdD pc i.encode) regs x).Performs pc a b (i.effect pc a b) := by
  cases i with
  | lui rd imm => exact performs_lui pc a b regs x rd imm
  | auipc rd imm => exact performs_auipc pc a b regs x rd imm
  | jal rd off => exact performs_jal pc a b regs x rd off
  | jalr rd rs1 imm => exact performs_jalr pc a b regs x rd rs1 imm
  | branch op rs1 rs2 off => exact performs_branch pc a b regs x rs1 rs2 op off
  | load op rd rs1 imm => exact performs_load pc a b regs x rd rs1 op imm
  | store op rs1 rs2 imm => exact performs_store pc a b regs x rs1 rs2 op imm
  | opImm op rd rs1 imm => exact performs_opImm pc a b regs x rd rs1 op imm
  | shiftImm op rd rs1 shamt => exact performs_shiftImm pc a b regs x rd rs1 op shamt
  | opReg op rd rs1 rs2 => exact performs_opReg pc a b regs x rd rs1 rs2 op

/-! ### The source registers -/

/-- The first source register is decoded and marked as used. -/
theorem idExD_rs1 {i : Instr} {r : BitVec 5} (h : i.rs1 = some r) :
    (idExD (ifIdD pc i.encode) regs x).rs1Used = true ∧
      (idExD (ifIdD pc i.encode) regs x).rs1Addr = r := by
  cases i with
  | lui rd imm => exact absurd h.symm (Option.some_ne_none _)
  | auipc rd imm => exact absurd h.symm (Option.some_ne_none _)
  | jal rd off => exact absurd h.symm (Option.some_ne_none _)
  | jalr rd rs1 imm =>
      obtain ⟨hop, -, -, hrs1⟩ := iType_fields rd rs1 0b000#3 0b1100111#7 imm
      simp only [idExD, ifIdD, Instr.encode, hop, hrs1]
      exact ⟨rfl, Option.some.inj h⟩
  | branch op rs1 rs2 off =>
      obtain ⟨hop, -, hrs1, -⟩ := bType_fields rs1 rs2 op.funct3 0b1100011#7 off
      simp only [idExD, ifIdD, Instr.encode, hop, hrs1]
      exact ⟨rfl, Option.some.inj h⟩
  | load op rd rs1 imm =>
      obtain ⟨hop, -, -, hrs1⟩ := iType_fields rd rs1 op.funct3 0b0000011#7 imm
      simp only [idExD, ifIdD, Instr.encode, hop, hrs1]
      exact ⟨rfl, Option.some.inj h⟩
  | store op rs1 rs2 imm =>
      obtain ⟨hop, -, hrs1, -⟩ := sType_fields rs1 rs2 op.funct3 0b0100011#7 imm
      simp only [idExD, ifIdD, Instr.encode, hop, hrs1]
      exact ⟨rfl, Option.some.inj h⟩
  | opImm op rd rs1 imm =>
      obtain ⟨hop, -, -, hrs1⟩ := iType_fields rd rs1 op.op.funct3 0b0010011#7 imm
      simp only [idExD, ifIdD, Instr.encode, hop, hrs1]
      exact ⟨rfl, Option.some.inj h⟩
  | shiftImm op rd rs1 shamt =>
      obtain ⟨hop, -, -, hrs1, -, -⟩ :=
        rType_fields rd rs1 shamt op.op.funct3 op.op.funct7 0b0010011#7
      simp only [idExD, ifIdD, Instr.encode, hop, hrs1]
      exact ⟨rfl, Option.some.inj h⟩
  | opReg op rd rs1 rs2 =>
      obtain ⟨hop, -, -, hrs1, -, -⟩ := rType_fields rd rs1 rs2 op.funct3 op.funct7 0b0110011#7
      simp only [idExD, ifIdD, Instr.encode, hop, hrs1]
      exact ⟨rfl, Option.some.inj h⟩

/-- The second source register is decoded and marked as used. -/
theorem idExD_rs2 {i : Instr} {r : BitVec 5} (h : i.rs2 = some r) :
    (idExD (ifIdD pc i.encode) regs x).rs2Used = true ∧
      (idExD (ifIdD pc i.encode) regs x).rs2Addr = r := by
  cases i with
  | branch op rs1 rs2 off =>
      obtain ⟨hop, -, -, hrs2⟩ := bType_fields rs1 rs2 op.funct3 0b1100011#7 off
      simp only [idExD, ifIdD, Instr.encode, hop, hrs2]
      exact ⟨rfl, Option.some.inj h⟩
  | store op rs1 rs2 imm =>
      obtain ⟨hop, -, -, hrs2⟩ := sType_fields rs1 rs2 op.funct3 0b0100011#7 imm
      simp only [idExD, ifIdD, Instr.encode, hop, hrs2]
      exact ⟨rfl, Option.some.inj h⟩
  | opReg op rd rs1 rs2 =>
      obtain ⟨hop, -, -, -, hrs2, -⟩ := rType_fields rd rs1 rs2 op.funct3 op.funct7 0b0110011#7
      simp only [idExD, ifIdD, Instr.encode, hop, hrs2]
      exact ⟨rfl, Option.some.inj h⟩
  | _ => exact absurd h.symm (Option.some_ne_none _)

end

/-- **Decode and execute implement RV32I.** Every encoded instruction, at every address, with every
pair of operand values and under any resolution of `'X`, performs its effect. A source register
whose value the effect depends on is decoded and marked as used. -/
theorem executes_rv32i (i : Instr) (pc : Word) (regs : Registers) (x : DontCare) :
    let d := idExD (ifIdD pc i.encode) regs x
    (∀ a b, d.Performs pc a b (i.effect pc a b)) ∧
      (∀ a a' b, i.effect pc a b ≠ i.effect pc a' b →
        d.rs1Used = true ∧ i.rs1 = some d.rs1Addr) ∧
      ∀ a b b', i.effect pc a b ≠ i.effect pc a b' →
        d.rs2Used = true ∧ i.rs2 = some d.rs2Addr := by
  intro d
  refine ⟨fun a b => idExD_performs pc a b regs x i, fun a a' b hne => ?_, fun a b b' hne => ?_⟩
  · cases h : i.rs1 with
    | none => exact absurd (Instr.effect_congr_rs1 h pc a a' b) hne
    | some r =>
        obtain ⟨hused, haddr⟩ := idExD_rs1 pc regs x h
        exact ⟨hused, congrArg some haddr.symm⟩
  · cases h : i.rs2 with
    | none => exact absurd (Instr.effect_congr_rs2 h pc a b b') hne
    | some r =>
        obtain ⟨hused, haddr⟩ := idExD_rs2 pc regs x h
        exact ⟨hused, congrArg some haddr.symm⟩

end Rv32iPipeline
