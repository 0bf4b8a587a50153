import Mathlib.Data.Bool.Basic
import Rv32iPipeline.Spec.Rv32i
import Rv32iPipeline.Spec.Sequential

/-!
# `Rv32iPipeline.Proofs.Encoding`: the fields of an encoded instruction

The decode stage cuts an instruction word into fields (`opcodeOf`, `rdOf`, ...) and immediates
(`immediateGenerator`). One lemma for each format says that the fields of an encoded word are the
ones it was encoded from.

`isImplemented_iff`: the words of `isImplemented` are exactly the encodings of the 37 instructions.
-/

set_option autoImplicit false

namespace Rv32iPipeline

open Rv32i (Instr AluOp ImmOp ShiftOp BranchOp LoadOp StoreOp rType iType sType bType uType jType)

/-- `Immediate_Generator` on the word: its input pins are `ir[31:7]`. -/
def immediatesOf (ir : Word) : Immediates := immediateGenerator (ir.extractLsb' 7 25)

section
variable (rd rs1 rs2 : BitVec 5) (funct3 : BitVec 3) (funct7 opcode : BitVec 7)

/-! ### Fields -/

/-- The fields of a word with two sources and a destination. -/
theorem rType_fields :
    let w := rType funct7 rs2 rs1 funct3 rd opcode
    opcodeOf w = opcode ∧ rdOf w = rd ∧ funct3Of w = funct3 ∧ rs1Of w = rs1 ∧ rs2Of w = rs2 ∧
      funct7Of w = funct7 := by
  unfold opcodeOf rdOf funct3Of rs1Of rs2Of funct7Of rType
  simp (disch := decide) only [BitVec.extractLsb'_append_eq_of_le,
    BitVec.extractLsb'_append_eq_of_add_le, BitVec.extractLsb'_eq_self, Nat.reduceSub, true_and]

/-- The fields of a word with a 12-bit immediate, a source and a destination. -/
theorem iType_fields (imm : BitVec 12) :
    let w := iType imm rs1 funct3 rd opcode
    opcodeOf w = opcode ∧ rdOf w = rd ∧ funct3Of w = funct3 ∧ rs1Of w = rs1 := by
  unfold opcodeOf rdOf funct3Of rs1Of iType
  simp (disch := decide) only [BitVec.extractLsb'_append_eq_of_le,
    BitVec.extractLsb'_append_eq_of_add_le, BitVec.extractLsb'_eq_self, Nat.reduceSub, true_and]

/-- The fields of a store. -/
theorem sType_fields (imm : BitVec 12) :
    let w := sType imm rs2 rs1 funct3 opcode
    opcodeOf w = opcode ∧ funct3Of w = funct3 ∧ rs1Of w = rs1 ∧ rs2Of w = rs2 := by
  unfold opcodeOf funct3Of rs1Of rs2Of sType
  simp (disch := decide) only [BitVec.extractLsb'_append_eq_of_le,
    BitVec.extractLsb'_append_eq_of_add_le, BitVec.extractLsb'_eq_self, Nat.reduceSub, true_and]

/-- The fields of a branch. -/
theorem bType_fields (off : BitVec 12) :
    let w := bType off rs2 rs1 funct3 opcode
    opcodeOf w = opcode ∧ funct3Of w = funct3 ∧ rs1Of w = rs1 ∧ rs2Of w = rs2 := by
  unfold opcodeOf funct3Of rs1Of rs2Of bType
  simp (disch := decide) only [BitVec.extractLsb'_append_eq_of_le,
    BitVec.extractLsb'_append_eq_of_add_le, BitVec.extractLsb'_eq_self, Nat.reduceSub, true_and]

/-- The fields of a word with a 20-bit immediate and a destination. -/
theorem uType_fields (imm : BitVec 20) :
    let w := uType imm rd opcode
    opcodeOf w = opcode ∧ rdOf w = rd := by
  unfold opcodeOf rdOf uType
  simp (disch := decide) only [BitVec.extractLsb'_append_eq_of_le,
    BitVec.extractLsb'_append_eq_of_add_le, BitVec.extractLsb'_eq_self, Nat.reduceSub, true_and]

/-- The fields of a `jal`. -/
theorem jType_fields (off : BitVec 20) :
    let w := jType off rd opcode
    opcodeOf w = opcode ∧ rdOf w = rd := by
  unfold opcodeOf rdOf jType
  simp (disch := decide) only [BitVec.extractLsb'_append_eq_of_le,
    BitVec.extractLsb'_append_eq_of_add_le, BitVec.extractLsb'_eq_self, Nat.reduceSub, true_and]

/-! ### Immediates -/

/-- The I-type immediate is the upper twelve bits, sign-extended. -/
theorem iType_immediate (imm : BitVec 12) :
    (immediatesOf (iType imm rs1 funct3 rd opcode)).iType = imm.signExtend 32 := by
  apply BitVec.eq_of_getLsbD_eq
  intro i hi
  simp only [immediatesOf, iType, immediateGenerator, BitVec.getLsbD_append,
    BitVec.getLsbD_signExtend, BitVec.getLsbD_extractLsb', BitVec.getLsbD_replicate,
    BitVec.msb_eq_getLsbD_last]
  grind

/-- The shift amount stands in the low five bits of the I-type immediate. -/
theorem rType_shamt :
    (immediatesOf (rType funct7 rs2 rs1 funct3 rd opcode)).iType.extractLsb' 0 5 = rs2 := by
  apply BitVec.eq_of_getLsbD_eq
  intro i hi
  simp only [immediatesOf, rType, immediateGenerator, BitVec.getLsbD_append,
    BitVec.getLsbD_extractLsb', BitVec.getLsbD_replicate]
  grind

/-- The S-type immediate stands around the registers. -/
theorem sType_immediate (imm : BitVec 12) :
    (immediatesOf (sType imm rs2 rs1 funct3 opcode)).sType = imm.signExtend 32 := by
  apply BitVec.eq_of_getLsbD_eq
  intro i hi
  simp only [immediatesOf, sType, immediateGenerator, BitVec.getLsbD_append,
    BitVec.getLsbD_signExtend, BitVec.getLsbD_extractLsb', BitVec.getLsbD_replicate,
    BitVec.msb_eq_getLsbD_last]
  grind

/-- The branch offset: its bits come back in order, with a zero below. -/
theorem bType_immediate (off : BitVec 12) :
    (immediatesOf (bType off rs2 rs1 funct3 opcode)).bType = (off ++ 0#1).signExtend 32 := by
  apply BitVec.eq_of_getLsbD_eq
  intro i hi
  simp only [immediatesOf, bType, immediateGenerator, BitVec.getLsbD_append,
    BitVec.getLsbD_signExtend, BitVec.getLsbD_extractLsb', BitVec.getLsbD_replicate,
    BitVec.msb_eq_getLsbD_last]
  grind

/-- The U-type immediate is the upper twenty bits, in place. -/
theorem uType_immediate (imm : BitVec 20) :
    (immediatesOf (uType imm rd opcode)).uType = imm ++ 0#12 := by
  apply BitVec.eq_of_getLsbD_eq
  intro i hi
  simp only [immediatesOf, uType, immediateGenerator, BitVec.getLsbD_append,
    BitVec.getLsbD_extractLsb']
  grind

/-- The `jal` offset. -/
theorem jType_immediate (off : BitVec 20) :
    (immediatesOf (jType off rd opcode)).jType = (off ++ 0#1).signExtend 32 := by
  apply BitVec.eq_of_getLsbD_eq
  intro i hi
  simp only [immediatesOf, jType, immediateGenerator, BitVec.getLsbD_append,
    BitVec.getLsbD_signExtend, BitVec.getLsbD_extractLsb', BitVec.getLsbD_replicate,
    BitVec.msb_eq_getLsbD_last]
  grind

end

/-! ### Every word is of every format -/

section
variable (w : Word)

theorem eq_rType :
    w = rType (funct7Of w) (rs2Of w) (rs1Of w) (funct3Of w) (rdOf w) (opcodeOf w) := by
  apply BitVec.eq_of_getLsbD_eq
  intro i hi
  simp only [rType, funct7Of, rs2Of, rs1Of, funct3Of, rdOf, opcodeOf, BitVec.getLsbD_append,
    BitVec.getLsbD_extractLsb']
  grind

theorem eq_iType :
    w = iType (w.extractLsb' 20 12) (rs1Of w) (funct3Of w) (rdOf w) (opcodeOf w) := by
  apply BitVec.eq_of_getLsbD_eq
  intro i hi
  simp only [iType, rs1Of, funct3Of, rdOf, opcodeOf, BitVec.getLsbD_append,
    BitVec.getLsbD_extractLsb']
  grind

theorem eq_sType :
    w = sType (w.extractLsb' 25 7 ++ w.extractLsb' 7 5) (rs2Of w) (rs1Of w) (funct3Of w)
      (opcodeOf w) := by
  apply BitVec.eq_of_getLsbD_eq
  intro i hi
  simp only [sType, rs2Of, rs1Of, funct3Of, opcodeOf, BitVec.getLsbD_append,
    BitVec.getLsbD_extractLsb']
  grind

theorem eq_bType :
    w = bType (w.extractLsb' 31 1 ++ w.extractLsb' 7 1 ++ w.extractLsb' 25 6 ++ w.extractLsb' 8 4)
      (rs2Of w) (rs1Of w) (funct3Of w) (opcodeOf w) := by
  apply BitVec.eq_of_getLsbD_eq
  intro i hi
  simp only [bType, rs2Of, rs1Of, funct3Of, opcodeOf, BitVec.getLsbD_append,
    BitVec.getLsbD_extractLsb']
  grind

theorem eq_uType : w = uType (w.extractLsb' 12 20) (rdOf w) (opcodeOf w) := by
  apply BitVec.eq_of_getLsbD_eq
  intro i hi
  simp only [uType, rdOf, opcodeOf, BitVec.getLsbD_append, BitVec.getLsbD_extractLsb']
  grind

theorem eq_jType :
    w = jType
      (w.extractLsb' 31 1 ++ w.extractLsb' 12 8 ++ w.extractLsb' 20 1 ++ w.extractLsb' 21 10)
      (rdOf w) (opcodeOf w) := by
  apply BitVec.eq_of_getLsbD_eq
  intro i hi
  simp only [jType, rdOf, opcodeOf, BitVec.getLsbD_append, BitVec.getLsbD_extractLsb']
  grind

end

/-! ### The implemented words -/

/-- `funct3` of an implemented load. -/
theorem exists_loadOp {f3 : BitVec 3}
    (h : [0b000#3, 0b001#3, 0b010#3, 0b100#3, 0b101#3].contains f3 = true) :
    ∃ op : LoadOp, op.funct3 = f3 := by
  simp only [List.contains_iff_mem, List.mem_cons, List.not_mem_nil, or_false] at h
  rcases h with rfl | rfl | rfl | rfl | rfl
  exacts [⟨.lb, rfl⟩, ⟨.lh, rfl⟩, ⟨.lw, rfl⟩, ⟨.lbu, rfl⟩, ⟨.lhu, rfl⟩]

/-- `funct3` of an implemented store. -/
theorem exists_storeOp {f3 : BitVec 3} (h : [0b000#3, 0b001#3, 0b010#3].contains f3 = true) :
    ∃ op : StoreOp, op.funct3 = f3 := by
  simp only [List.contains_iff_mem, List.mem_cons, List.not_mem_nil, or_false] at h
  rcases h with rfl | rfl | rfl
  exacts [⟨.sb, rfl⟩, ⟨.sh, rfl⟩, ⟨.sw, rfl⟩]

/-- `funct3` of an implemented branch. -/
theorem exists_branchOp {f3 : BitVec 3}
    (h : [0b000#3, 0b001#3, 0b100#3, 0b101#3, 0b110#3, 0b111#3].contains f3 = true) :
    ∃ op : BranchOp, op.funct3 = f3 := by
  simp only [List.contains_iff_mem, List.mem_cons, List.not_mem_nil, or_false] at h
  rcases h with rfl | rfl | rfl | rfl | rfl | rfl
  exacts [⟨.beq, rfl⟩, ⟨.bne, rfl⟩, ⟨.blt, rfl⟩, ⟨.bge, rfl⟩, ⟨.bltu, rfl⟩, ⟨.bgeu, rfl⟩]

/-- Every `funct3` but those of the shifts belongs to an operation with an immediate. -/
theorem exists_immOp {f3 : BitVec 3} (h1 : f3 ≠ 0b001#3) (h5 : f3 ≠ 0b101#3) :
    ∃ op : ImmOp, op.op.funct3 = f3 := by
  have hcases : f3 = 0b000#3 ∨ f3 = 0b010#3 ∨ f3 = 0b011#3 ∨ f3 = 0b100#3 ∨ f3 = 0b110#3 ∨
      f3 = 0b111#3 := by
    revert f3
    decide
  rcases hcases with rfl | rfl | rfl | rfl | rfl | rfl
  exacts [⟨.addi, rfl⟩, ⟨.slti, rfl⟩, ⟨.sltiu, rfl⟩, ⟨.xori, rfl⟩, ⟨.ori, rfl⟩, ⟨.andi, rfl⟩]

/-- Every `funct3` belongs to an operation on two registers with `funct7` zero. -/
theorem exists_aluOp (f3 : BitVec 3) :
    ∃ op : AluOp, op.funct3 = f3 ∧ op.funct7 = 0b0000000#7 := by
  have hcases : f3 = 0b000#3 ∨ f3 = 0b001#3 ∨ f3 = 0b010#3 ∨ f3 = 0b011#3 ∨ f3 = 0b100#3 ∨
      f3 = 0b101#3 ∨ f3 = 0b110#3 ∨ f3 = 0b111#3 := by
    revert f3
    decide
  rcases hcases with rfl | rfl | rfl | rfl | rfl | rfl | rfl | rfl
  exacts [⟨.add, rfl, rfl⟩, ⟨.sll, rfl, rfl⟩, ⟨.slt, rfl, rfl⟩, ⟨.sltu, rfl, rfl⟩,
    ⟨.xor, rfl, rfl⟩, ⟨.srl, rfl, rfl⟩, ⟨.or, rfl, rfl⟩, ⟨.and, rfl, rfl⟩]

/-- Every instruction encodes to an implemented word. -/
theorem isImplemented_encode (i : Instr) : isImplemented i.encode = true := by
  cases i with
  | lui rd imm => simp [isImplemented, Instr.encode, uType_fields]
  | auipc rd imm => simp [isImplemented, Instr.encode, uType_fields]
  | jal rd off => simp [isImplemented, Instr.encode, jType_fields]
  | jalr rd rs1 imm => simp [isImplemented, Instr.encode, iType_fields]
  | branch op rs1 rs2 off =>
      simp only [isImplemented, Instr.encode, bType_fields]
      cases op <;> decide
  | load op rd rs1 imm =>
      simp only [isImplemented, Instr.encode, iType_fields]
      cases op <;> decide
  | store op rs1 rs2 imm =>
      simp only [isImplemented, Instr.encode, sType_fields]
      cases op <;> decide
  | opImm op rd rs1 imm =>
      simp only [isImplemented, Instr.encode, iType_fields]
      cases op <;> rfl
  | shiftImm op rd rs1 shamt =>
      simp only [isImplemented, Instr.encode, rType_fields]
      cases op <;> decide
  | opReg op rd rs1 rs2 =>
      simp only [isImplemented, Instr.encode, rType_fields]
      cases op <;> decide

/-- Every implemented word is an encoding. -/
theorem exists_encode {w : Word} (h : isImplemented w = true) : ∃ i : Instr, i.encode = w := by
  unfold isImplemented at h
  -- one case for each opcode, in the order of the definition
  split at h
  · have hw := eq_uType w
    rename_i hop
    rw [hop] at hw
    exact ⟨.lui (rdOf w) _, hw.symm⟩
  · have hw := eq_uType w
    rename_i hop
    rw [hop] at hw
    exact ⟨.auipc (rdOf w) _, hw.symm⟩
  · have hw := eq_jType w
    rename_i hop
    rw [hop] at hw
    exact ⟨.jal (rdOf w) _, hw.symm⟩
  · have hw := eq_iType w
    rename_i hop
    rw [hop, eq_of_beq h] at hw
    exact ⟨.jalr (rdOf w) (rs1Of w) _, hw.symm⟩
  · have hw := eq_iType w
    rename_i hop
    obtain ⟨op, hf3⟩ := exists_loadOp h
    rw [hop, ← hf3] at hw
    exact ⟨.load op (rdOf w) (rs1Of w) _, hw.symm⟩
  · have hw := eq_sType w
    rename_i hop
    obtain ⟨op, hf3⟩ := exists_storeOp h
    rw [hop, ← hf3] at hw
    exact ⟨.store op (rs1Of w) (rs2Of w) _, hw.symm⟩
  · have hw := eq_bType w
    rename_i hop
    obtain ⟨op, hf3⟩ := exists_branchOp h
    rw [hop, ← hf3] at hw
    exact ⟨.branch op (rs1Of w) (rs2Of w) _, hw.symm⟩
  · rename_i hop
    split at h
    -- `slli`, `srli` or `srai`, and the other operations with an immediate
    · have hw := eq_rType w
      rename_i hf3
      rw [hop, hf3, eq_of_beq h] at hw
      exact ⟨.shiftImm .slli (rdOf w) (rs1Of w) (rs2Of w), hw.symm⟩
    · have hw := eq_rType w
      rename_i hf3
      rw [hop, hf3] at hw
      simp only [Bool.or_eq_true, beq_iff_eq] at h
      rcases h with hf7 | hf7
      · rw [hf7] at hw
        exact ⟨.shiftImm .srli (rdOf w) (rs1Of w) (rs2Of w), hw.symm⟩
      · rw [hf7] at hw
        exact ⟨.shiftImm .srai (rdOf w) (rs1Of w) (rs2Of w), hw.symm⟩
    · have hw := eq_iType w
      rename_i h1 h5
      obtain ⟨op, hf3⟩ := exists_immOp h1 h5
      rw [hop, ← hf3] at hw
      exact ⟨.opImm op (rdOf w) (rs1Of w) _, hw.symm⟩
  · have hw := eq_rType w
    rename_i hop
    rw [hop] at hw
    have hreg : ∀ op : AluOp, op.funct3 = funct3Of w ∧ op.funct7 = funct7Of w →
        ∃ i : Instr, i.encode = w := by
      rintro op ⟨hf3, hf7⟩
      rw [← hf3, ← hf7] at hw
      exact ⟨.opReg op (rdOf w) (rs1Of w) (rs2Of w), hw.symm⟩
    obtain ⟨op, hop⟩ := exists_aluOp (funct3Of w)
    split at h
    -- `add` or `sub`, `srl` or `sra`, and the other operations
    · rename_i hf3
      simp only [Bool.or_eq_true, beq_iff_eq] at h
      rcases h with hf7 | hf7
      · exact hreg op (hf7 ▸ hop)
      · exact hreg .sub ⟨hf3.symm, hf7.symm⟩
    · rename_i hf3
      simp only [Bool.or_eq_true, beq_iff_eq] at h
      rcases h with hf7 | hf7
      · exact hreg op (hf7 ▸ hop)
      · exact hreg .sra ⟨hf3.symm, hf7.symm⟩
    · exact hreg op (eq_of_beq h ▸ hop)
  · exact absurd h Bool.false_ne_true

/-- The implemented words are the encodings of the 37 instructions. -/
theorem isImplemented_iff (w : Word) : isImplemented w = true ↔ ∃ i : Instr, i.encode = w := by
  constructor
  · exact exists_encode
  · rintro ⟨i, rfl⟩
    exact isImplemented_encode i

end Rv32iPipeline
