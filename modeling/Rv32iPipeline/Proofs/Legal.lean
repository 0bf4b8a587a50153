import Rv32iPipeline.Proofs.Isa

/-!
# `Rv32iPipeline.Proofs.Legal`: the words that RV32I leaves undefined

`Control_Unit_Decoder` reads fewer bits of a word than RV32I defines: of `funct7` only `ir[30]`, and
that only for the two `funct3` values with a twin. `legal` writes a word without the bits that the
core does not read. Most of the words that are no RV32I operation become one by it.

`core_runs_legal`: whatever program is in the instruction memory, the core runs the legal form of
each word. So a word of the M extension is an addition or a shift, a `JALR` may have any `funct3`,
and a branch with a reserved `funct3` or a `SYSTEM` word that is no trap does nothing.
-/

set_option autoImplicit false

namespace Rv32iPipeline

open CpuTop Clocked
open Rv32i (Instr Op AluOp BranchOp LoadOp StoreOp ShiftOp ImmOp Memory Machine rType iType sType)

/-! ### The legal form -/

/-- A word that does nothing: a `FENCE`. -/
def noOp : Word := 0x0000000F#32

/-- `funct7` of an operation, from `ir[30]`, when its `funct3` has a twin. -/
def twinFunct7 (hasTwin ir30 : Bool) : BitVec 7 :=
  if hasTwin && ir30 then 0b0100000#7 else 0b0000000#7

/-- The word without the bits that the core does not read. -/
def legal (w : Word) : Word :=
  match opcodeOf w with
  -- `JALR` without its `funct3`
  | 0b1100111#7 => iType (w.extractLsb' 20 12) (rs1Of w) 0b000#3 (rdOf w) 0b1100111#7
  -- `PC_Decoder` has no arm for two of the branches
  | 0b1100011#7 => if funct3Of w = 0b010#3 ∨ funct3Of w = 0b011#3 then noOp else w
  -- a store has no sign
  | 0b0100011#7 => sType (w.extractLsb' 25 7 ++ w.extractLsb' 7 5) (rs2Of w) (rs1Of w)
      (0#1 ++ (funct3Of w).extractLsb' 0 2) 0b0100011#7
  -- of the operations with an immediate only the right shifts look at `ir[30]`
  | 0b0010011#7 =>
    if funct3Of w = 0b001#3 ∨ funct3Of w = 0b101#3 then
      rType (twinFunct7 (funct3Of w == 0b101#3) (w.getLsbD 30)) (rs2Of w) (rs1Of w) (funct3Of w)
        (rdOf w) 0b0010011#7
    else w
  | 0b0110011#7 =>
    rType (twinFunct7 (funct3Of w == 0b000#3 || funct3Of w == 0b101#3) (w.getLsbD 30)) (rs2Of w)
      (rs1Of w) (funct3Of w) (rdOf w) 0b0110011#7
  -- `SYSTEM` keeps the base cases, but for `ECALL` and `EBREAK`
  | 0b1110011#7 => if funct3Of w = 0b000#3 then w else noOp
  | _ => w

/-! ### The core runs it -/

/-- A word that drives no more than the base cases is run as a no-op. -/
theorem executes_noOp {w : Word} (htrap : isTrap w = false)
    (hperf : ∀ pc a b regs, (idExD (ifIdD pc w) regs DontCare.zero).Performs pc a b
      ⟨none, none, pc + 4#32, none⟩) : Executes w .fence :=
  ⟨hperf, fun r hr => absurd hr.symm (Option.some_ne_none r),
    fun r hr => absurd hr.symm (Option.some_ne_none r), htrap⟩

/-- No word with another opcode than `SYSTEM` traps. -/
theorem isTrap_of_opcode {w : Word} (hop : opcodeOf w ≠ 0b1110011#7) : isTrap w = false := by
  rw [isTrap, beq_false_of_ne hop, Bool.false_and]

section
variable {f3 : BitVec 3} {f7 : BitVec 7} {rd rs1 rs2 : BitVec 5} {imm : BitVec 12}

theorem executes_jalr :
    Executes (iType imm rs1 f3 rd 0b1100111#7) (.instr (.jalr rd rs1 imm)) := by
  obtain ⟨hop, hrd, -, hrs1⟩ := iType_fields rd rs1 f3 0b1100111#7 imm
  have himm := iType_immediate rd rs1 f3 0b1100111#7 imm
  refine ⟨fun pc a b regs => ?_, fun r hr => hrs1.trans (Option.some.inj hr),
    fun r hr => absurd hr.symm (Option.some_ne_none r), isTrap_of_opcode (by rw [hop]; decide)⟩
  have htarget : ((immediatesOf (iType imm rs1 f3 rd 0b1100111#7)).iType + a) &&& 0xFFFFFFFE#32
      = (a + imm.signExtend 32) &&& ~~~1#32 := by
    rw [himm, BitVec.add_comm]
    rfl
  simp only [idExD, ifIdD, hop, hrd]
  exact ⟨rfl, fun _ _ _ _ => rfl, htarget, rfl⟩

/-- The two low bits of `funct3` are the size of a store. -/
theorem executes_store {op : StoreOp} (hf3 : f3.extractLsb' 0 2 = op.funct3.extractLsb' 0 2) :
    Executes (sType imm rs2 rs1 f3 0b0100011#7) (.instr (.store op rs1 rs2 imm)) := by
  obtain ⟨hop, hfunct3, hrs1, hrs2⟩ := sType_fields rs1 rs2 f3 0b0100011#7 imm
  have himm := sType_immediate rs1 rs2 f3 0b0100011#7 imm
  refine ⟨fun pc a b regs => ?_, fun r hr => hrs1.trans (Option.some.inj hr),
    fun r hr => hrs2.trans (Option.some.inj hr), isTrap_of_opcode (by rw [hop]; decide)⟩
  simp only [idExD, ifIdD, hop, memSize_eq, memSign_eq, hfunct3, hf3]
  refine ⟨rfl, fun h => absurd h Bool.false_ne_true, rfl, ?_⟩
  show [Rv32i.Access.store (a + _) (accessBytes (op.funct3.extractLsb' 0 2)) b]
    = [Rv32i.Access.store (a + imm.signExtend 32) op.bytes b]
  rw [accessBytes_storeOp op, ← himm]
  rfl

/-- The ALU function decides the shift. -/
theorem executes_shiftImm {op : ShiftOp}
    (hfun : iTypeAluFun f3 (f7.getLsbD 5) = rTypeAluFun op.op.funct3 (op.op.funct7.getLsbD 5)) :
    Executes (rType f7 rs2 rs1 f3 rd 0b0010011#7) (.instr (.shiftImm op rd rs1 rs2)) := by
  obtain ⟨hop, hrd, hf3, hrs1, -, hf7⟩ := rType_fields rd rs1 rs2 f3 f7 0b0010011#7
  have hamount := rType_shamt rd rs1 rs2 f3 f7 0b0010011#7
  refine ⟨fun pc a b regs => ?_, fun r hr => hrs1.trans (Option.some.inj hr),
    fun r hr => absurd hr.symm (Option.some_ne_none r), isTrap_of_opcode (by rw [hop]; decide)⟩
  simp only [idExD, ifIdD, hop, hrd, hf3, ir30_eq, hf7]
  refine ⟨rfl, fun _ _ _ _ => ?_, rfl, rfl⟩
  show alu a (immediatesOf _).iType (iTypeAluFun f3 (f7.getLsbD 5))
    = op.op.eval a (rs2.setWidth 32)
  rw [hfun, alu_rTypeAluFun]
  exact eval_shiftOp_congr op a hamount

/-- The ALU function decides the operation. -/
theorem executes_opReg {op : AluOp}
    (hfun : rTypeAluFun f3 (f7.getLsbD 5) = rTypeAluFun op.funct3 (op.funct7.getLsbD 5)) :
    Executes (rType f7 rs2 rs1 f3 rd 0b0110011#7) (.instr (.opReg op rd rs1 rs2)) := by
  obtain ⟨hop, hrd, hf3, hrs1, hrs2, hf7⟩ := rType_fields rd rs1 rs2 f3 f7 0b0110011#7
  refine ⟨fun pc a b regs => ?_, fun r hr => hrs1.trans (Option.some.inj hr),
    fun r hr => hrs2.trans (Option.some.inj hr), isTrap_of_opcode (by rw [hop]; decide)⟩
  simp only [idExD, ifIdD, hop, hrd, hf3, ir30_eq, hf7]
  refine ⟨rfl, fun _ _ _ _ => ?_, rfl, rfl⟩
  show alu a b (rTypeAluFun f3 (f7.getLsbD 5)) = op.eval a b
  rw [hfun]
  exact alu_rTypeAluFun op a b

end

/-- `PC_Decoder` takes no branch of a reserved `funct3`. -/
theorem executes_reserved_branch {w : Word} (hop : opcodeOf w = 0b1100011#7)
    (hf3 : funct3Of w = 0b010#3 ∨ funct3Of w = 0b011#3) : Executes w .fence := by
  refine executes_noOp (isTrap_of_opcode (by rw [hop]; decide)) fun pc a b regs => ?_
  simp only [idExD, ifIdD, hop]
  rcases hf3 with hf3 | hf3 <;> rw [hf3] <;>
    exact ⟨rfl, fun h => absurd h Bool.false_ne_true, rfl, rfl⟩

/-- A `SYSTEM` word other than `ECALL` and `EBREAK` keeps the base cases. -/
theorem executes_system {w : Word} (hop : opcodeOf w = 0b1110011#7)
    (hf3 : funct3Of w ≠ 0b000#3) : Executes w .fence := by
  refine executes_noOp ?_ fun pc a b regs => ?_
  · rw [isTrap, beq_false_of_ne hf3, Bool.and_false]
  · simp only [idExD, ifIdD, hop]
    exact ⟨rfl, fun h => absurd h Bool.false_ne_true, rfl, rfl⟩

/-! ### The legal form decodes -/

section
variable {f3 : BitVec 3} {f7 : BitVec 7} {rd rs1 rs2 : BitVec 5} {imm : BitVec 12}

theorem op_decode_store : Op.decode (sType imm rs2 rs1 f3 0b0100011#7)
    = (StoreOp.ofFunct3 f3).map fun op => .instr (.store op rs1 rs2 imm) := by
  obtain ⟨hop, hf3, hrs1, hrs2⟩ := sType_fields rs1 rs2 f3 0b0100011#7 imm
  have himm := sType_imm rs1 rs2 f3 0b0100011#7 imm
  simp only at himm
  rw [op_decode_eq (by rw [hop]; decide), decode_eq]
  simp only [hop, hf3, hrs1, hrs2, himm, Option.map_map]
  rfl

theorem op_decode_shiftImm (hf3 : f3 = 0b001#3 ∨ f3 = 0b101#3) :
    Op.decode (rType f7 rs2 rs1 f3 rd 0b0010011#7)
      = (ShiftOp.ofFunct f3 f7).map fun op => .instr (.shiftImm op rd rs1 rs2) := by
  obtain ⟨hop, hrd, hfunct3, hrs1, hrs2, hf7⟩ := rType_fields rd rs1 rs2 f3 f7 0b0010011#7
  have hnone : ImmOp.ofFunct3 f3 = none := by
    rcases hf3 with rfl | rfl <;> rfl
  rw [op_decode_eq (by rw [hop]; decide), decode_eq]
  simp only [hop, hrd, hfunct3, hrs1, hrs2, hf7, hnone, Option.map_map]
  rfl

theorem op_decode_opReg : Op.decode (rType f7 rs2 rs1 f3 rd 0b0110011#7)
    = (AluOp.ofFunct f3 f7).map fun op => .instr (.opReg op rd rs1 rs2) := by
  obtain ⟨hop, hrd, hf3, hrs1, hrs2, hf7⟩ := rType_fields rd rs1 rs2 f3 f7 0b0110011#7
  rw [op_decode_eq (by rw [hop]; decide), decode_eq]
  simp only [hop, hrd, hf3, hrs1, hrs2, hf7, Option.map_map]
  rfl

end

/-- Bit 30 of a twin is `ir[30]`. -/
theorem twinFunct7_bit (hasTwin ir30 : Bool) :
    (twinFunct7 hasTwin ir30).getLsbD 5 = (hasTwin && ir30) := by
  cases hasTwin <;> cases ir30 <;> rfl

/-- Only the right shifts of the I-type arm look at `ir[30]`. -/
theorem iTypeAluFun_shift {f3 : BitVec 3} (hf3 : f3 = 0b001#3 ∨ f3 = 0b101#3) (ir30 : Bool) :
    iTypeAluFun f3 ir30 = rTypeAluFun f3 (f3 == 0b101#3 && ir30) := by
  rcases hf3 with rfl | rfl <;> cases ir30 <;> rfl

/-- Only additions and right shifts of the R-type arm look at `ir[30]`. -/
theorem rTypeAluFun_twin (f3 : BitVec 3) (ir30 : Bool) :
    rTypeAluFun f3 ir30 = rTypeAluFun f3 ((f3 == 0b000#3 || f3 == 0b101#3) && ir30) := by
  revert f3 ir30
  decide

/-- **The core runs the legal form of a word.** -/
theorem executes_of_legal {w : Word} {o : Op} (h : Op.decode (legal w) = some o) :
    Executes w o := by
  unfold legal at h
  split at h
  · rename_i hop
    obtain rfl := Option.some.inj ((op_decode_encode (.jalr _ _ _)).symm.trans h)
    have hex := @executes_jalr (funct3Of w) (rdOf w) (rs1Of w) (w.extractLsb' 20 12)
    rwa [← hop, ← eq_iType] at hex
  · rename_i hop
    split at h
    · rename_i hf3
      obtain rfl := Option.some.inj h
      exact executes_reserved_branch hop hf3
    · exact executes_of_decode h
  · rename_i hop
    rw [op_decode_store] at h
    obtain ⟨op, hf3, rfl⟩ := Option.map_eq_some_iff.mp h
    have hsize : (funct3Of w).extractLsb' 0 2 = op.funct3.extractLsb' 0 2 := by
      rw [storeOp_ofFunct3_iff.mp hf3, BitVec.extractLsb'_append_eq_of_add_le (by decide),
        BitVec.extractLsb'_eq_self]
    have hex := @executes_store (funct3Of w) (rs1Of w) (rs2Of w)
      (w.extractLsb' 25 7 ++ w.extractLsb' 7 5) op hsize
    rwa [← hop, ← eq_sType] at hex
  · rename_i hop
    split at h
    · rename_i hf3
      rw [op_decode_shiftImm hf3] at h
      obtain ⟨op, hf, rfl⟩ := Option.map_eq_some_iff.mp h
      obtain ⟨hop3, hop7⟩ := shiftOp_ofFunct_iff.mp hf
      have hfun : iTypeAluFun (funct3Of w) ((funct7Of w).getLsbD 5)
          = rTypeAluFun op.op.funct3 (op.op.funct7.getLsbD 5) := by
        rw [hop3, hop7, twinFunct7_bit, ir30_eq]
        exact iTypeAluFun_shift hf3 _
      have hex := @executes_shiftImm (funct3Of w) (funct7Of w) (rdOf w) (rs1Of w) (rs2Of w) op hfun
      rwa [← hop, ← eq_rType] at hex
    · exact executes_of_decode h
  · rename_i hop
    rw [op_decode_opReg] at h
    obtain ⟨op, hf, rfl⟩ := Option.map_eq_some_iff.mp h
    obtain ⟨hop3, hop7⟩ := aluOp_ofFunct_iff.mp hf
    have hfun : rTypeAluFun (funct3Of w) ((funct7Of w).getLsbD 5)
        = rTypeAluFun op.funct3 (op.funct7.getLsbD 5) := by
      rw [hop3, hop7, twinFunct7_bit, ir30_eq]
      exact rTypeAluFun_twin _ _
    have hex := @executes_opReg (funct3Of w) (funct7Of w) (rdOf w) (rs1Of w) (rs2Of w) op hfun
    rwa [← hop, ← eq_rType] at hex
  · rename_i hop
    split at h
    · exact executes_of_decode h
    · rename_i hf3
      obtain rfl := Option.some.inj h
      exact executes_system hop hf3
  · exact executes_of_decode h

/-! ### Programs -/

/-- **The core runs the legal form of every program.** The core is out of reset with any memory on
its bus, and any words in its instruction memory. Whenever the RV32I machine on the legal forms of
these words gets to instruction `n`, the core completes that instruction in EX in a cycle `c`
between `n + 2` and `3 * n + 2`, with the machine's program counter, memory and registers. The
register writes and the stores so far are those of the first `n` legal forms, and no others. -/
theorem core_runs_legal {μ : Type*} (imem : InstructionMemory) (M : Memory μ) (regs : Registers)
    (m : μ) (d : Word) (idle : ℕ → Word) {n : ℕ} {h : Machine μ}
    (hrun : (⟨⟨0#32, regs.file⟩, m⟩ : Machine μ).run (fun pc => legal (imem.at pc)) (fun _ => M) n
      = some h) :
    let start : Attached μ := ⟨outOfReset imem regs, m, d⟩
    let machine : Machine μ := ⟨⟨0#32, regs.file⟩, m⟩
    let core := Clocked.run (Attached.step imem (memoryResponder M)) start idle
    ∃ c, n + 2 ≤ c ∧ c ≤ 3 * n + 2 ∧ (core c).cpu.completes = true ∧
      (core c).cpu.idExQ.pc = h.hart.pc ∧ (core c).mem = h.mem ∧
      (core (c + 1)).cpu.registers.file = h.hart.regs ∧
      Attached.regWrites imem (memoryResponder M) start idle (c + 1)
        = machine.regWrites (fun pc => legal (imem.at pc)) (fun _ => M) n ∧
      (Attached.busWrites imem (memoryResponder M) start idle c).map BusWrite.store
        = machine.stores (fun pc => legal (imem.at pc)) (fun _ => M) n :=
  RunsAs.attached (fun _ _ ho => executes_of_legal ho) M regs m d idle hrun

/-- `addi x2, x0, 5`, the word of `mul x1, x2, x2`, and then `sw x1, 0(x0)`: the core adds, and
stores 10. -/
theorem core_runs_legal_mul :
    let imem : InstructionMemory := fun a =>
      if a = 0#13 then 0x00500113#32 else if a = 1#13 then 0x022100B3#32 else 0x00102023#32
    let M : Memory (Word → Word) := ⟨fun m a _ _ => m a, fun m a _ v => Function.update m a v⟩
    let start : Attached (Word → Word) := ⟨outOfReset imem fun _ => 0#32, fun _ => 0#32, 0#32⟩
    ∃ c ≤ 11, (Attached.busWrites imem (memoryResponder M) start (fun _ => 0#32) c).map
      BusWrite.store = [(0#32, 4, 10#32)] := by
  intro imem M start
  let machine : Machine (Word → Word) :=
    ⟨⟨0#32, Registers.file fun _ => 0#32⟩, fun _ => 0#32⟩
  have hrun := (Option.some_get (show (machine.run (fun pc => legal (imem.at pc)) (fun _ => M)
    3).isSome = true by decide +kernel)).symm
  obtain ⟨c, -, hc, -, -, -, -, -, hstores⟩ :=
    core_runs_legal imem M (fun _ => 0#32) (fun _ => 0#32) 0#32 (fun _ => 0#32) hrun
  refine ⟨c, hc, hstores.trans ?_⟩
  decide +kernel

end Rv32iPipeline
