import Rv32iPipeline.Proofs.Drain
import Rv32iPipeline.Proofs.Fetch

/-!
# `Rv32iPipeline.Proofs.CurrentOperands`: EX sees the current operands in every reachable state

`Operands` shows that forwarding is right under its hypotheses. Here they are an invariant of every
state from a reset on, until a trap has been in EX (`BeforeTrap`): the captured operands are good,
and no link value is in MEM behind a used port (`OperandsOk`).

A reset does not clear `halt_sig`, so there are two modes. Without it (`Running`) no trap is
anywhere behind EX. With a `halt_sig` from before the reset (`Lone`) MEM/WB is held and forwards
nothing, but then `IMEM` is frozen too: a word enters the pipeline only behind a reset or a taken
transfer, so that the word before it has left MEM by the time it reads its registers.

`operands_current` is the main result.
-/

set_option autoImplicit false

namespace Rv32iPipeline.CpuTop

variable {imem : InstructionMemory} {s : CpuTop}

/-- A state that some edge with `RST` high and then any inputs lead to, with no trap in EX on the
way. Every `'X` reads as 0. -/
inductive BeforeTrap (imem : InstructionMemory) : CpuTop → Prop where
  | reset (s : CpuTop) (d : Word) : BeforeTrap imem (s.step imem (CpuInput.reset d))
  | step {s : CpuTop} (h : BeforeTrap imem s) (ht : s.idExQ.trap = false) (rst : Bool) (d : Word) :
      BeforeTrap imem (s.step imem ⟨rst, d, DontCare.zero⟩)

theorem BeforeTrap.reachable (h : BeforeTrap imem s) : Reachable imem s := by
  induction h with
  | reset s d => exact .reset s d
  | step _ _ rst d ih => exact ih.step rst d

/-- The used operands in EX are good, and no link value is in MEM behind them. -/
structure OperandsOk (s : CpuTop) : Prop where
  wb : s.WbOk
  op1 : s.idExQ.rs1Used = true → s.OperandOk s.idExQ.rs1Addr s.idExQ.rs1
  op2 : s.idExQ.rs2Used = true → s.OperandOk s.idExQ.rs2Addr s.idExQ.rs2
  noLink : s.idExQ.rs1Used = true ∨ s.idExQ.rs2Used = true → s.exMemQ.rfWe = true →
    s.exMemQ.memRden = false → s.exMemQ.rfSel = wbAlu

/-- The core runs, and no trap is behind EX. -/
structure Running (s : CpuTop) : Prop where
  halt : s.haltSig = false
  exMemTrap : s.exMemQ.trap = false
  memWbTrap : s.memWbQ.trap = false

/-- The core is halted. MEM/WB is held empty, and a word that writes a register is followed by
zero words until it has left MEM. -/
structure Lone (s : CpuTop) : Prop where
  halt : s.haltSig = true
  memWb : s.memWbQ.rfWe = false
  exMem : s.exMemQ.rfWe = true → s.idExQ.rs1Used = false ∧ s.idExQ.rs2Used = false ∧
    s.ifIdQ.ir = 0#32
  idEx : s.idExQ.rfWe = true → s.ifIdQ.ir = 0#32 ∧ s.ir = 0#32
  ifId : s.ifIdQ.ir ≠ 0#32 → s.ir = 0#32

/-! ### After a reset -/

/-- A cleared pipeline has no operands. -/
theorem Cleared.operandsOk (h : s.Cleared) : s.OperandsOk where
  wb hwe := by
    rw [h.memWb] at hwe
    exact absurd hwe Bool.false_ne_true
  op1 hu := by
    rw [h.idEx] at hu
    exact absurd hu Bool.false_ne_true
  op2 hu := by
    rw [h.idEx] at hu
    exact absurd hu Bool.false_ne_true
  noLink _ hwe := by
    rw [h.exMem] at hwe
    exact absurd hwe Bool.false_ne_true

/-- A cleared pipeline is in one of the modes. -/
theorem Cleared.mode (h : s.Cleared) : s.Running ∨ s.Lone := by
  cases hh : s.haltSig with
  | false =>
      refine .inl ⟨hh, ?_, ?_⟩
      · rw [h.exMem]
        rfl
      · rw [h.memWb]
        rfl
  | true =>
      refine .inr ⟨hh, ?_, fun hwe => ?_, fun hwe => ?_, fun hne => ?_⟩
      · rw [h.memWb]
        rfl
      · rw [h.exMem] at hwe
        exact absurd hwe Bool.false_ne_true
      · rw [h.idEx] at hwe
        exact absurd hwe Bool.false_ne_true
      · rw [h.ifId] at hne
        exact absurd rfl hne

/-! ### Steps of a running core -/

/-- The operands that ID/EX takes are good, if each used one is the value in the array. -/
theorem Running.operandsOk_step (h : s.Running) (d : Word)
    (hop1 : (s.nextIdEx (CpuInput.run d)).rs1Used = true →
      (s.nextIdEx (CpuInput.run d)).rs1 = s.registers.read (s.nextIdEx (CpuInput.run d)).rs1Addr)
    (hop2 : (s.nextIdEx (CpuInput.run d)).rs2Used = true →
      (s.nextIdEx (CpuInput.run d)).rs2 = s.registers.read (s.nextIdEx (CpuInput.run d)).rs2Addr)
    (hlink : (s.nextIdEx (CpuInput.run d)).rs1Used = true ∨
        (s.nextIdEx (CpuInput.run d)).rs2Used = true → (s.nextExMem (CpuInput.run d)).rfWe = true →
      (s.nextExMem (CpuInput.run d)).memRden = false →
      (s.nextExMem (CpuInput.run d)).rfSel = wbAlu) :
    (s.step imem (CpuInput.run d)).OperandsOk where
  wb := wbOk_of_step (nextMemWb_of_quiet h.halt h.memWbTrap d _) rfl
  op1 hu := by
    show OperandOk _ _ (s.nextIdEx (CpuInput.run d)).rs1
    rw [hop1 hu]
    exact operandOk_of_read (nextMemWb_of_quiet h.halt h.memWbTrap d _) rfl _
  op2 hu := by
    show OperandOk _ _ (s.nextIdEx (CpuInput.run d)).rs2
    rw [hop2 hu]
    exact operandOk_of_read (nextMemWb_of_quiet h.halt h.memWbTrap d _) rfl _
  noLink := hlink

/-- A running core keeps its operands good. -/
theorem OperandsOk.step_running (h : s.OperandsOk) (hc : s.idExQ.Coherent) (hr : s.Running)
    (imem : InstructionMemory) (d : Word) : (s.step imem (CpuInput.run d)).OperandsOk := by
  cases hs : s.stall with
  | true =>
      -- ID/EX captures what the array holds
      have hid : s.nextIdEx (CpuInput.run d)
          = { s.idExQ with rs1 := s.realRs1, rs2 := s.realRs2 } := by
        simp [nextIdEx, CpuInput.run, hazard_eq, flush_of_stall hs, stallIdEx_eq, hs]
      refine hr.operandsOk_step d ?_ ?_ ?_
      · rw [hid]
        exact fun hu => captured_realRs1 h.wb hs hu (h.op1 hu)
      · rw [hid]
        exact fun hu => captured_realRs2 h.wb hs hu (h.op2 hu)
      · intro _ hwe
        rw [CpuInput.run, nextExMem_of_stall hs] at hwe
        exact absurd hwe Bool.false_ne_true
  | false =>
      cases hf : s.flush with
      | true =>
          have hid : s.nextIdEx (CpuInput.run d) = IdEx.zero := by
            simp [nextIdEx, CpuInput.run, hazard_eq, hf]
          refine hr.operandsOk_step d ?_ ?_ ?_
          all_goals rw [hid]
          · exact fun hu => absurd hu Bool.false_ne_true
          · exact fun hu => absurd hu Bool.false_ne_true
          · exact fun hu => hu.elim (absurd · Bool.false_ne_true) (absurd · Bool.false_ne_true)
      | false =>
          have hid : s.nextIdEx (CpuInput.run d) = idExD s.ifIdQ s.registers DontCare.zero :=
            nextIdEx_of_advance hs hf d _
          refine hr.operandsOk_step d ?_ ?_ ?_
          · rw [hid]
            exact fun _ => rfl
          · rw [hid]
            exact fun _ => rfl
          · -- no flush, so the instruction that moves to MEM is no jump
            intro _ hwe hrden
            rw [CpuInput.run, nextExMem_of_not_stall hs] at hwe hrden ⊢
            have hnt : s.idExQ.taken s.realRs1 s.realRs2 = false := by
              simp only [flush, hs, Bool.not_false, Bool.true_and, Bool.or_eq_false_iff] at hf
              exact hf.1
            exact hc.alu_of_not_taken hnt hwe hrden

/-- Without a trap in EX a running core goes on running. -/
theorem Running.step (h : s.Running) (ht : s.idExQ.trap = false) (imem : InstructionMemory)
    (d : Word) : (s.step imem (CpuInput.run d)).Running where
  halt := by
    show s.nextHalt false = false
    simp [nextHalt, h.halt, h.memWbTrap]
  exMemTrap := by
    show (s.nextExMem (CpuInput.run d)).trap = false
    cases hs : s.stall with
    | true =>
        rw [CpuInput.run, nextExMem_of_stall hs]
        rfl
    | false =>
        rw [CpuInput.run, nextExMem_of_not_stall hs]
        exact ht
  memWbTrap := by
    show (s.nextMemWb (CpuInput.run d)).trap = false
    rw [CpuInput.run, nextMemWb_of_quiet h.halt h.memWbTrap]
    exact h.exMemTrap

/-! ### Steps of a halted core -/

/-- A zero word writes no register and uses no operand. -/
theorem idExD_of_zero_word {q : IfId} (hq : q.ir = 0#32) (regs : Registers) :
    (idExD q regs DontCare.zero).rfWe = false ∧ (idExD q regs DontCare.zero).rs1Used = false ∧
      (idExD q regs DontCare.zero).rs2Used = false := by
  have hop : opcodeOf q.ir = 0b0000000#7 := by rw [hq]; rfl
  simp only [idExD, hop]
  exact ⟨rfl, rfl, rfl⟩

/-- No load is ever behind a used operand. -/
theorem Lone.stall_eq_false (h : s.Lone) : s.stall = false := by
  rw [stall_eq]
  cases hwe : s.exMemQ.rfWe with
  | false => simp [readsMemLoad]
  | true =>
      obtain ⟨hu1, hu2, -⟩ := h.exMem hwe
      simp [readsMemLoad, hu1, hu2]

/-- A halted core stays so, and keeps the distance between its words. -/
theorem Lone.step (h : s.Lone) (imem : InstructionMemory) (d : Word) :
    (s.step imem (CpuInput.run d)).Lone := by
  have hmw : s.nextMemWb (CpuInput.run d) = s.memWbQ := by simp [nextMemWb, CpuInput.run, h.halt]
  have hhalt : s.nextHalt false = true := by simp [nextHalt, h.halt]
  have hs := h.stall_eq_false
  cases hf : s.flush with
  | true =>
      -- the word at the target is the only one
      rw [CpuInput.run, step_flush imem d _ hf]
      refine ⟨hhalt, ?_, fun _ => ⟨rfl, rfl, rfl⟩, fun hwe => absurd hwe Bool.false_ne_true,
        fun hne => absurd rfl hne⟩
      exact (congrArg MemWb.rfWe hmw).trans h.memWb
  | false =>
      rw [CpuInput.run, step_frozen imem d _ hs hf (by simp [freeze, h.halt])]
      refine ⟨hhalt, (congrArg MemWb.rfWe hmw).trans h.memWb, fun hwe => ?_, fun hwe => ?_,
        fun _ => rfl⟩
      · obtain ⟨hif, hir⟩ := h.idEx hwe
        obtain ⟨-, hu1, hu2⟩ := idExD_of_zero_word hif s.registers
        exact ⟨hu1, hu2, hir⟩
      · have hne : s.ifIdQ.ir ≠ 0#32 := fun hz =>
          Bool.false_ne_true ((idExD_of_zero_word hz s.registers).1.symm.trans hwe)
        exact ⟨h.ifId hne, rfl⟩

/-- A halted core reads current operands from the array. -/
theorem Lone.operandsOk_step (h : s.Lone) (imem : InstructionMemory) (d : Word) :
    (s.step imem (CpuInput.run d)).OperandsOk := by
  have hlone := h.step imem d
  have hs := h.stall_eq_false
  -- a used operand was read while MEM wrote no register
  have hread : ∀ adr, s.exMemQ.rfWe = false →
      (s.step imem (CpuInput.run d)).OperandOk adr (s.registers.read adr) := by
    intro adr hwe
    have hregs : (s.step imem (CpuInput.run d)).registers = s.registers := by
      show s.nextRegisters d DontCare.zero = s.registers
      simp [nextRegisters, hwe]
    exact ⟨fun h0 => by simp [h0], fun h0 => .inr (by rw [hregs]; simp [Registers.read, h0])⟩
  have hsilent : (s.step imem (CpuInput.run d)).exMemQ.rfWe = true →
      ¬ ((s.step imem (CpuInput.run d)).idExQ.rs1Used = true ∨
        (s.step imem (CpuInput.run d)).idExQ.rs2Used = true) := by
    intro hwe hu
    obtain ⟨hu1, hu2, -⟩ := hlone.exMem hwe
    rw [hu1, hu2] at hu
    exact hu.elim Bool.false_ne_true Bool.false_ne_true
  cases hf : s.flush with
  | true =>
      have hid : (s.step imem (CpuInput.run d)).idExQ = IdEx.zero := by
        rw [CpuInput.run, step_flush imem d _ hf]
      refine ⟨fun hwe => absurd (hlone.memWb.symm.trans hwe) Bool.false_ne_true, fun hu => ?_,
        fun hu => ?_, fun hu hwe => absurd hu (hsilent hwe)⟩
      all_goals
        rw [hid] at hu
        exact absurd hu Bool.false_ne_true
  | false =>
      have hid : (s.step imem (CpuInput.run d)).idExQ
          = idExD s.ifIdQ s.registers DontCare.zero := nextIdEx_of_advance hs hf d _
      have hquiet : s.ifIdQ.ir ≠ 0#32 → s.exMemQ.rfWe = false := fun hne =>
        Bool.eq_false_iff.mpr fun hwe => hne (h.exMem hwe).2.2
      refine ⟨fun hwe => absurd (hlone.memWb.symm.trans hwe) Bool.false_ne_true, fun hu => ?_,
        fun hu => ?_, fun hu hwe => absurd hu (hsilent hwe)⟩
      · rw [hid] at hu ⊢
        refine hread (rs1Of s.ifIdQ.ir) (hquiet fun hz => ?_)
        exact Bool.false_ne_true ((idExD_of_zero_word hz s.registers).2.1.symm.trans hu)
      · rw [hid] at hu ⊢
        refine hread (rs2Of s.ifIdQ.ir) (hquiet fun hz => ?_)
        exact Bool.false_ne_true ((idExD_of_zero_word hz s.registers).2.2.symm.trans hu)

/-! ### The reachable states -/

/-- Before a trap has been in EX the operands are good, in either mode. -/
theorem BeforeTrap.operandsOk (h : BeforeTrap imem s) : s.OperandsOk ∧ (s.Running ∨ s.Lone) := by
  induction h with
  | reset s d =>
      have hclear := cleared_step_reset imem s d
      exact ⟨hclear.operandsOk, hclear.mode⟩
  | @step s hs ht rst d ih =>
      cases rst with
      | true =>
          have hclear := cleared_step_reset imem s d
          exact ⟨hclear.operandsOk, hclear.mode⟩
      | false =>
          rcases ih.2 with hrun | hlone
          · exact ⟨ih.1.step_running hs.reachable.wf.coherent hrun imem d,
              .inl (hrun.step ht imem d)⟩
          · exact ⟨hlone.operandsOk_step imem d, .inr (hlone.step imem d)⟩

/-- A port that takes the value from MEM is used, and MEM writes a register without a load. -/
theorem forwardSel_mem {exAddr memAddr wbAddr : BitVec 5} {memWe memRden wbWe used : Bool}
    (h : forwardSel exAddr memAddr wbAddr memWe memRden wbWe used = 0b01#2) :
    memWe = true ∧ memRden = false ∧ used = true := by
  unfold forwardSel at h
  split at h
  · rename_i hmatch
    simp only [Bool.and_eq_true, Bool.not_eq_true'] at hmatch
    exact ⟨hmatch.1.1.2, hmatch.1.2, hmatch.2⟩
  · split at h
    · split at h <;> exact absurd h (by decide)
    · exact absurd h (by decide)

/-- **EX sees the current operands.** From a reset on, until a trap has been in EX, with any
`DATA_IN`: without a load-use stall, an operand that the instruction in EX uses is the content of
its register with the pending write of EX/MEM applied. The forward from MEM is selected only while
MEM writes the ALU result back. -/
theorem operands_current (imem : InstructionMemory) {s : CpuTop} (h : BeforeTrap imem s)
    (dataIn : Word) :
    let regs := s.nextRegisters dataIn DontCare.zero
    (s.stall = false → s.idExQ.rs1Used = true → s.realRs1 = regs.read s.idExQ.rs1Addr) ∧
      (s.stall = false → s.idExQ.rs2Used = true → s.realRs2 = regs.read s.idExQ.rs2Addr) ∧
      (s.forwarding.srcAForwardSel = 0b01#2 ∨ s.forwarding.srcBForwardSel = 0b01#2 →
        s.exMemQ.rfSel = wbAlu) := by
  obtain ⟨hok, -⟩ := h.operandsOk
  intro regs
  refine ⟨fun hs hu => ?_, fun hs hu => ?_, fun hsel => ?_⟩
  · rw [stall_eq, Bool.or_eq_false_iff, hu] at hs
    rw [realRs1_eq, hu]
    exact forwarded_eq s dataIn DontCare.zero hok.wb (hok.op1 hu) hs.1 (hok.noLink (.inl hu))
  · rw [stall_eq, Bool.or_eq_false_iff, hu] at hs
    rw [realRs2_eq, hu]
    exact forwarded_eq s dataIn DontCare.zero hok.wb (hok.op2 hu) hs.2 (hok.noLink (.inr hu))
  · rcases hsel with hsel | hsel
    · obtain ⟨hwe, hrden, hu⟩ := forwardSel_mem hsel
      exact hok.noLink (.inl hu) hwe hrden
    · obtain ⟨hwe, hrden, hu⟩ := forwardSel_mem hsel
      exact hok.noLink (.inr hu) hwe hrden

/-- `addi x1, x1, 1` everywhere: the second one takes 1 from the first, which is in MEM. -/
theorem operands_current_addi :
    let imem : InstructionMemory := fun _ => 0x00108093#32
    let edge := fun s : CpuTop => s.step imem (CpuInput.run 0#32)
    let s := edge (edge (edge ((outOfReset imem fun _ => 0#32).step imem (CpuInput.reset 0#32))))
    s.realRs1 = (s.nextRegisters 0#32 DontCare.zero).read s.idExQ.rs1Addr ∧ s.realRs1 = 1#32 := by
  intro imem edge s
  have h0 := @BeforeTrap.reset imem (outOfReset imem fun _ => 0#32) 0#32
  have h1 := h0.step (by decide +kernel) false 0#32
  have h2 := h1.step (by decide +kernel) false 0#32
  have h3 := h2.step (by decide +kernel) false 0#32
  exact ⟨(operands_current imem h3 0#32).1 (by decide +kernel) (by decide +kernel),
    by decide +kernel⟩

end Rv32iPipeline.CpuTop
