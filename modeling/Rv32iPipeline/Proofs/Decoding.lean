import Rv32iPipeline.Proofs.Encoding
import Rv32iPipeline.Spec.Machine

/-!
# `Rv32iPipeline.Proofs.Decoding`: `Instr.decode` inverts `Instr.encode`

`decode_eq_some_iff`: a word decodes to an instruction exactly when it is its encoding. So the words
that decode are the implemented ones (`isSome_decode`).

A word of the opcode `FENCE` is the only other operation (`op_decode_eq_some`).
-/

set_option autoImplicit false

namespace Rv32iPipeline

open Rv32i (Instr Op AluOp ImmOp ShiftOp BranchOp LoadOp StoreOp rType iType sType bType uType
  jType)

/-! ### The operation codes -/

/-- A search by a code that no two elements share finds the element of that code. -/
theorem find?_code_iff {α β : Type*} [BEq β] [LawfulBEq β] {l : List α} {code : α → β}
    (hinj : Function.Injective code) {a : α} (ha : a ∈ l) {c : β} :
    (l.find? fun b => code b == c) = some a ↔ code a = c := by
  constructor
  · intro h
    have hcode := List.find?_some h
    exact eq_of_beq hcode
  · intro hc
    cases h : l.find? fun b => code b == c with
    | none => exact absurd (beq_of_eq hc) (List.find?_eq_none.mp h a ha)
    | some b =>
        have hcode := List.find?_some h
        rw [hinj ((eq_of_beq hcode).trans hc.symm)]

theorem branchOp_ofFunct3_iff {f3 : BitVec 3} {op : BranchOp} :
    BranchOp.ofFunct3 f3 = some op ↔ op.funct3 = f3 :=
  find?_code_iff (fun a b => by cases a <;> cases b <;> decide) (by cases op <;> decide)

theorem loadOp_ofFunct3_iff {f3 : BitVec 3} {op : LoadOp} :
    LoadOp.ofFunct3 f3 = some op ↔ op.funct3 = f3 :=
  find?_code_iff (fun a b => by cases a <;> cases b <;> decide) (by cases op <;> decide)

theorem storeOp_ofFunct3_iff {f3 : BitVec 3} {op : StoreOp} :
    StoreOp.ofFunct3 f3 = some op ↔ op.funct3 = f3 :=
  find?_code_iff (fun a b => by cases a <;> cases b <;> decide) (by cases op <;> decide)

theorem immOp_ofFunct3_iff {f3 : BitVec 3} {op : ImmOp} :
    ImmOp.ofFunct3 f3 = some op ↔ op.op.funct3 = f3 :=
  find?_code_iff (fun a b => by cases a <;> cases b <;> decide) (by cases op <;> decide)

/-- No operation with an immediate has the `funct3` of a shift. -/
theorem immOp_ofFunct3_shiftOp (op : ShiftOp) : ImmOp.ofFunct3 op.op.funct3 = none := by
  cases op <;> rfl

/-- The shifts and the operations on two registers have their code in `funct3` and `funct7`. -/
theorem shiftOp_ofFunct_iff {f3 : BitVec 3} {f7 : BitVec 7} {op : ShiftOp} :
    ShiftOp.ofFunct f3 f7 = some op ↔ op.op.funct3 = f3 ∧ op.op.funct7 = f7 :=
  (@find?_code_iff _ _ _ _ _ (fun op : ShiftOp => (op.op.funct3, op.op.funct7))
    (fun a b => by cases a <;> cases b <;> decide) op (by cases op <;> decide) (f3, f7)).trans
    Prod.ext_iff

theorem aluOp_ofFunct_iff {f3 : BitVec 3} {f7 : BitVec 7} {op : AluOp} :
    AluOp.ofFunct f3 f7 = some op ↔ op.funct3 = f3 ∧ op.funct7 = f7 :=
  (@find?_code_iff _ _ _ _ _ (fun op : AluOp => (op.funct3, op.funct7))
    (fun a b => by cases a <;> cases b <;> decide) op (by cases op <;> decide) (f3, f7)).trans
    Prod.ext_iff

/-! ### Immediates as decoded -/

section
variable (rd rs1 rs2 : BitVec 5) (funct3 : BitVec 3) (opcode : BitVec 7)

theorem iType_imm (imm : BitVec 12) :
    (iType imm rs1 funct3 rd opcode).extractLsb' 20 12 = imm := by
  apply BitVec.eq_of_getLsbD_eq
  intro i hi
  simp only [iType, BitVec.getLsbD_append, BitVec.getLsbD_extractLsb']
  grind

theorem sType_imm (imm : BitVec 12) :
    let w := sType imm rs2 rs1 funct3 opcode
    w.extractLsb' 25 7 ++ w.extractLsb' 7 5 = imm := by
  apply BitVec.eq_of_getLsbD_eq
  intro i hi
  simp only [sType, BitVec.getLsbD_append, BitVec.getLsbD_extractLsb']
  grind

theorem bType_off (off : BitVec 12) :
    let w := bType off rs2 rs1 funct3 opcode
    w.extractLsb' 31 1 ++ w.extractLsb' 7 1 ++ w.extractLsb' 25 6 ++ w.extractLsb' 8 4 = off := by
  apply BitVec.eq_of_getLsbD_eq
  intro i hi
  simp only [bType, BitVec.getLsbD_append, BitVec.getLsbD_extractLsb']
  grind

theorem uType_imm (imm : BitVec 20) : (uType imm rd opcode).extractLsb' 12 20 = imm := by
  apply BitVec.eq_of_getLsbD_eq
  intro i hi
  simp only [uType, BitVec.getLsbD_append, BitVec.getLsbD_extractLsb']
  grind

theorem jType_off (off : BitVec 20) :
    let w := jType off rd opcode
    w.extractLsb' 31 1 ++ w.extractLsb' 12 8 ++ w.extractLsb' 20 1 ++ w.extractLsb' 21 10
      = off := by
  apply BitVec.eq_of_getLsbD_eq
  intro i hi
  simp only [jType, BitVec.getLsbD_append, BitVec.getLsbD_extractLsb']
  grind

end

/-! ### The round trip -/

/-- The definition in the words of the core's fields. -/
theorem decode_eq (w : Word) : Instr.decode w =
    match opcodeOf w with
    | 0b0110111#7 => some (.lui (rdOf w) (w.extractLsb' 12 20))
    | 0b0010111#7 => some (.auipc (rdOf w) (w.extractLsb' 12 20))
    | 0b1101111#7 => some (.jal (rdOf w) (w.extractLsb' 31 1 ++ w.extractLsb' 12 8
        ++ w.extractLsb' 20 1 ++ w.extractLsb' 21 10))
    | 0b1100111#7 =>
      if funct3Of w = 0b000#3 then some (.jalr (rdOf w) (rs1Of w) (w.extractLsb' 20 12)) else none
    | 0b1100011#7 => (BranchOp.ofFunct3 (funct3Of w)).map fun op =>
        .branch op (rs1Of w) (rs2Of w) (w.extractLsb' 31 1 ++ w.extractLsb' 7 1
          ++ w.extractLsb' 25 6 ++ w.extractLsb' 8 4)
    | 0b0000011#7 => (LoadOp.ofFunct3 (funct3Of w)).map fun op =>
        .load op (rdOf w) (rs1Of w) (w.extractLsb' 20 12)
    | 0b0100011#7 => (StoreOp.ofFunct3 (funct3Of w)).map fun op =>
        .store op (rs1Of w) (rs2Of w) (w.extractLsb' 25 7 ++ w.extractLsb' 7 5)
    | 0b0010011#7 =>
      match ImmOp.ofFunct3 (funct3Of w) with
      | some op => some (.opImm op (rdOf w) (rs1Of w) (w.extractLsb' 20 12))
      | none => (ShiftOp.ofFunct (funct3Of w) (funct7Of w)).map fun op =>
          .shiftImm op (rdOf w) (rs1Of w) (rs2Of w)
    | 0b0110011#7 => (AluOp.ofFunct (funct3Of w) (funct7Of w)).map fun op =>
        .opReg op (rdOf w) (rs1Of w) (rs2Of w)
    | _ => none := rfl

/-- An encoding decodes to its instruction. -/
theorem decode_encode (i : Instr) : Instr.decode i.encode = some i := by
  rw [decode_eq]
  cases i with
  | lui rd imm => simp only [Instr.encode, uType_fields, uType_imm]
  | auipc rd imm => simp only [Instr.encode, uType_fields, uType_imm]
  | jal rd off =>
      have hoff := jType_off rd 0b1101111#7 off
      simp only at hoff
      simp only [Instr.encode, jType_fields, hoff]
  | jalr rd rs1 imm => simp only [Instr.encode, iType_fields, iType_imm, if_true]
  | branch op rs1 rs2 off =>
      have hoff := bType_off rs1 rs2 op.funct3 0b1100011#7 off
      simp only at hoff
      simp only [Instr.encode, bType_fields, branchOp_ofFunct3_iff.mpr rfl, hoff, Option.map_some]
  | load op rd rs1 imm =>
      simp only [Instr.encode, iType_fields, iType_imm, loadOp_ofFunct3_iff.mpr rfl,
        Option.map_some]
  | store op rs1 rs2 imm =>
      have himm := sType_imm rs1 rs2 op.funct3 0b0100011#7 imm
      simp only at himm
      simp only [Instr.encode, sType_fields, storeOp_ofFunct3_iff.mpr rfl, himm, Option.map_some]
  | opImm op rd rs1 imm =>
      simp only [Instr.encode, iType_fields, iType_imm, immOp_ofFunct3_iff.mpr rfl]
  | shiftImm op rd rs1 shamt =>
      simp only [Instr.encode, rType_fields, immOp_ofFunct3_shiftOp,
        shiftOp_ofFunct_iff.mpr ⟨rfl, rfl⟩, Option.map_some]
  | opReg op rd rs1 rs2 =>
      simp only [Instr.encode, rType_fields, aluOp_ofFunct_iff.mpr ⟨rfl, rfl⟩, Option.map_some]

/-- A word that decodes is the encoding of its instruction. -/
theorem encode_of_decode {w : Word} {i : Instr} (h : Instr.decode w = some i) : i.encode = w := by
  rw [decode_eq] at h
  -- one case for each opcode, in the order of the definition
  split at h
  · rename_i hop
    obtain rfl := Option.some.inj h
    rw [Instr.encode, ← hop, ← eq_uType]
  · rename_i hop
    obtain rfl := Option.some.inj h
    rw [Instr.encode, ← hop, ← eq_uType]
  · rename_i hop
    obtain rfl := Option.some.inj h
    rw [Instr.encode, ← hop, ← eq_jType]
  · rename_i hop
    obtain ⟨hf3, hi⟩ := Option.ite_none_right_eq_some.mp h
    obtain rfl := Option.some.inj hi
    rw [Instr.encode, ← hf3, ← hop, ← eq_iType]
  · rename_i hop
    obtain ⟨op, hf3, rfl⟩ := Option.map_eq_some_iff.mp h
    rw [Instr.encode, branchOp_ofFunct3_iff.mp hf3, ← hop, ← eq_bType]
  · rename_i hop
    obtain ⟨op, hf3, rfl⟩ := Option.map_eq_some_iff.mp h
    rw [Instr.encode, loadOp_ofFunct3_iff.mp hf3, ← hop, ← eq_iType]
  · rename_i hop
    obtain ⟨op, hf3, rfl⟩ := Option.map_eq_some_iff.mp h
    rw [Instr.encode, storeOp_ofFunct3_iff.mp hf3, ← hop, ← eq_sType]
  · rename_i hop
    split at h
    · rename_i op hf3
      obtain rfl := Option.some.inj h
      rw [Instr.encode, immOp_ofFunct3_iff.mp hf3, ← hop, ← eq_iType]
    · obtain ⟨op, hf, rfl⟩ := Option.map_eq_some_iff.mp h
      obtain ⟨hf3, hf7⟩ := shiftOp_ofFunct_iff.mp hf
      rw [Instr.encode, hf3, hf7, ← hop, ← eq_rType]
  · rename_i hop
    obtain ⟨op, hf, rfl⟩ := Option.map_eq_some_iff.mp h
    obtain ⟨hf3, hf7⟩ := aluOp_ofFunct_iff.mp hf
    rw [Instr.encode, hf3, hf7, ← hop, ← eq_rType]
  · exact absurd h.symm (Option.some_ne_none i)

/-- The words that decode to an instruction are its one encoding. -/
theorem decode_eq_some_iff {w : Word} {i : Instr} : Instr.decode w = some i ↔ i.encode = w := by
  constructor
  · exact encode_of_decode
  · rintro rfl
    exact decode_encode i

/-- The words that decode are the implemented ones. -/
theorem isSome_decode (w : Word) : (Instr.decode w).isSome = isImplemented w := by
  rw [Bool.eq_iff_iff, Option.isSome_iff_exists, isImplemented_iff]
  exact exists_congr fun i => decode_eq_some_iff

/-- A word of another opcode than `FENCE` is an instruction or no operation. -/
theorem op_decode_eq {w : Word} (hop : opcodeOf w ≠ 0b0001111#7) :
    Op.decode w = (Instr.decode w).map .instr := if_neg hop

/-- An operation is an encoded instruction or a word of the opcode `FENCE`. -/
theorem op_decode_eq_some {w : Word} {o : Op} (h : Op.decode w = some o) :
    (∃ i : Instr, o = .instr i ∧ i.encode = w) ∨ o = .fence ∧ opcodeOf w = 0b0001111#7 := by
  unfold Op.decode at h
  split at h
  · rename_i hop
    exact .inr ⟨(Option.some.inj h).symm, hop⟩
  · obtain ⟨i, hi, rfl⟩ := Option.map_eq_some_iff.mp h
    exact .inl ⟨i, rfl, encode_of_decode hi⟩

/-- An encoding is the operation of its instruction. -/
theorem op_decode_encode (i : Instr) : Op.decode i.encode = some (.instr i) := by
  have hdec := decode_encode i
  rw [Op.decode]
  split
  · -- the opcode `FENCE` is none of the instructions'
    rename_i hop
    have hop' : opcodeOf i.encode = 0b0001111#7 := hop
    rw [decode_eq, hop'] at hdec
    exact absurd hdec.symm (Option.some_ne_none i)
  · rw [hdec]
    rfl

/-- The opcode of an instruction. -/
def opcode : Instr → BitVec 7
  | .lui _ _ => 0b0110111#7
  | .auipc _ _ => 0b0010111#7
  | .jal _ _ => 0b1101111#7
  | .jalr _ _ _ => 0b1100111#7
  | .branch _ _ _ _ => 0b1100011#7
  | .load _ _ _ _ => 0b0000011#7
  | .store _ _ _ _ => 0b0100011#7
  | .opImm _ _ _ _ | .shiftImm _ _ _ _ => 0b0010011#7
  | .opReg _ _ _ _ => 0b0110011#7

theorem opcodeOf_encode (i : Instr) : opcodeOf i.encode = opcode i := by
  cases i with
  | lui rd imm => exact (uType_fields _ _ _).1
  | auipc rd imm => exact (uType_fields _ _ _).1
  | jal rd off => exact (jType_fields _ _ _).1
  | jalr rd rs1 imm => exact (iType_fields _ _ _ _ _).1
  | branch op rs1 rs2 off => exact (bType_fields _ _ _ _ _).1
  | load op rd rs1 imm => exact (iType_fields _ _ _ _ _).1
  | store op rs1 rs2 imm => exact (sType_fields _ _ _ _ _).1
  | opImm op rd rs1 imm => exact (iType_fields _ _ _ _ _).1
  | shiftImm op rd rs1 shamt => exact (rType_fields _ _ _ _ _ _).1
  | opReg op rd rs1 rs2 => exact (rType_fields _ _ _ _ _ _).1

/-- The decode stage marks a source register as used exactly when the instruction has it. -/
theorem idExD_used (i : Instr) (pc : Word) (regs : Registers) (x : DontCare) :
    (idExD (ifIdD pc i.encode) regs x).rs1Used = i.rs1.isSome ∧
      (idExD (ifIdD pc i.encode) regs x).rs2Used = i.rs2.isSome := by
  -- the control bits go by the opcode
  simp only [idExD, ifIdD, opcodeOf_encode]
  cases i <;> exact ⟨rfl, rfl⟩

/-- Where the write-back value of an instruction comes from. -/
theorem idExD_rfSel (i : Instr) (pc : Word) (regs : Registers) (x : DontCare) :
    (idExD (ifIdD pc i.encode) regs x).rfSel =
      match i with
      | .jal _ _ | .jalr _ _ _ | .branch _ _ _ _ | .store _ _ _ _ => wbPc4
      | .load _ _ _ _ => wbDataIn
      | _ => wbAlu := by
  simp only [idExD, ifIdD, opcodeOf_encode]
  cases i <;> rfl

/-- The words that are operations are those of the implemented paths. -/
theorem isSome_op_decode (w : Word) :
    (Op.decode w).isSome = true ↔ isImplemented w = true ∨ isFence w = true := by
  rw [← isSome_decode, Op.decode, isFence, beq_iff_eq]
  show (if opcodeOf w = 0b0001111#7 then some Op.fence else _).isSome = true ↔ _
  split
  · rename_i hop
    exact ⟨fun _ => .inr hop, fun _ => rfl⟩
  · rename_i hop
    rw [Option.isSome_map]
    exact ⟨.inl, fun h => h.resolve_right hop⟩

end Rv32iPipeline
