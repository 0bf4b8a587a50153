import Rv32iPipeline.Proofs.Simulation

/-!
# `Rv32iPipeline.Proofs.Drain`: the cycles behind a trap in EX

A trap in EX flushes the front end, but its flush also lets `IMEM` fetch once more: the word
at `PC_USED + 4` enters the pipeline behind the trap and reaches EX three cycles later, with
`halt_sig` set by then. `Draining` describes these cycles by phase:

* `flushed`: the trap is in MEM and the shadow word is in the output register of `IMEM`;
* `frozen`: the trap is in WB and the shadow word is in IF/ID;
* `shadow`: `halt_sig` is high and the shadow word is in EX.

`Wf` is the invariant of the states the core can reach with every `'X` read as 0
(`Reachable.wf`). From it, `Wf.trap_flushed`, `Draining.flushed_frozen` and
`Draining.frozen_shadow` follow a trap through the three cycles.
-/

set_option autoImplicit false

namespace Rv32iPipeline.CpuTop

variable {imem : InstructionMemory} {s : CpuTop}

/-! ### The reachable states -/

/-- A state the core can reach: some edge with `RST` high, and then any inputs. Before the
first such edge the flops may hold anything. -/
inductive Reachable (imem : InstructionMemory) : CpuTop → Prop where
  | reset (s : CpuTop) (d : Word) : Reachable imem (s.step imem (CpuInput.reset d))
  | step {s : CpuTop} (h : Reachable imem s) (rst : Bool) (d : Word) :
      Reachable imem (s.step imem ⟨rst, d, DontCare.zero⟩)

/-- The invariant: EX holds a coherent instruction, a trap behind it writes no register, and
neither does a MEM/WB that is held. -/
structure Wf (s : CpuTop) : Prop where
  coherent : s.idExQ.Coherent
  exMemTrap : s.exMemQ.trap = true → s.exMemQ.rfWe = false
  held : s.haltSig = true ∨ s.memWbQ.trap = true → s.memWbQ.rfWe = false

/-- An edge with `RST` high establishes the invariant. -/
theorem wf_step_reset (imem : InstructionMemory) (s : CpuTop) (d : Word) (x : DontCare) :
    (s.step imem ⟨true, d, x⟩).Wf := by
  rw [step_reset]
  exact ⟨idEx_zero_coherent, fun _ => rfl, fun _ => rfl⟩

/-- EX holds a coherent instruction after every edge. -/
theorem Wf.coherent_step (h : s.Wf) (d : Word) :
    (s.nextIdEx ⟨false, d, DontCare.zero⟩).Coherent := by
  unfold nextIdEx
  split
  · exact idEx_zero_coherent
  · split
    · exact h.coherent.withOperands _ _
    · exact idExD_coherent ..

/-- A trap in MEM writes no register after every edge. -/
theorem Wf.exMemTrap_step (h : s.Wf) (d : Word) (x : DontCare)
    (ht : (s.nextExMem ⟨false, d, x⟩).trap = true) :
    (s.nextExMem ⟨false, d, x⟩).rfWe = false := by
  simp only [nextExMem, Bool.false_eq_true, if_false] at ht ⊢
  split
  · rfl
  · rename_i hflush
    rw [if_neg hflush] at ht
    exact (h.coherent.trap ht).1

/-- A held MEM/WB writes no register after every edge. -/
theorem Wf.held_step (h : s.Wf) (d : Word) (x : DontCare)
    (ht : s.nextHalt false = true ∨ (s.nextMemWb ⟨false, d, x⟩).trap = true) :
    (s.nextMemWb ⟨false, d, x⟩).rfWe = false := by
  -- a held MEM/WB keeps its value, any other takes the slot from MEM
  by_cases hhold : s.haltSig = true ∨ s.memWbQ.trap = true
  · have hmw : s.nextMemWb ⟨false, d, x⟩ = s.memWbQ := by simp [nextMemWb, hhold]
    rw [hmw]
    exact h.held hhold
  · simp only [not_or, Bool.not_eq_true] at hhold
    rw [nextMemWb_of_quiet hhold.1 hhold.2] at ht ⊢
    have hexMem : s.exMemQ.trap = true := by
      rcases ht with hc | hc
      · simp [nextHalt, hhold.1, hhold.2] at hc
      · exact hc
    exact h.exMemTrap hexMem

/-- Every edge keeps the invariant. -/
theorem Wf.step (h : s.Wf) (imem : InstructionMemory) (rst : Bool) (d : Word) :
    (s.step imem ⟨rst, d, DontCare.zero⟩).Wf := by
  cases rst with
  | true => exact wf_step_reset imem s d _
  | false => exact ⟨h.coherent_step d, h.exMemTrap_step d _, h.held_step d _⟩

/-- Every reachable state meets the invariant. -/
theorem Reachable.wf (h : Reachable imem s) : s.Wf := by
  induction h with
  | reset s d => exact wf_step_reset imem s d _
  | step _ rst d ih => exact ih.step imem rst d

/-! ### A trap in EX -/

/-- A trap in EX uses no operand, so it does not stall. -/
theorem Wf.stall_of_trap (h : s.Wf) (ht : s.idExQ.trap = true) : s.stall = false := by
  obtain ⟨-, -, -, -, -, -, hu1, hu2⟩ := h.coherent.trap ht
  simp [stall_eq, readsMemLoad, hu1, hu2]

/-- A trap in EX redirects nothing. -/
theorem Wf.taken_of_trap (h : s.Wf) (ht : s.idExQ.trap = true) (r1 r2 : Word) :
    s.idExQ.taken r1 r2 = false := by
  obtain ⟨-, -, -, hb, hj, hjr, -⟩ := h.coherent.trap ht
  simp [IdEx.taken, hb, hj, hjr]

/-- A trap in EX flushes. -/
theorem Wf.flush_of_trap (h : s.Wf) (ht : s.idExQ.trap = true) : s.flush = true := by
  simp [flush, h.stall_of_trap ht, ht]

/-- An instruction that redirects nothing leaves the fetch at `PC_USED + 4`. -/
theorem pc_of_not_taken (h : s.idExQ.taken s.realRs1 s.realRs2 = false) :
    s.pc false = s.pcUsed + 4#32 := by
  rw [CpuTop.pc, show s.pcSel = pcPc4 from IdEx.Coherent.pcSel_of_not_taken h]
  rfl

/-- The slots between a trap and the word fetched behind it. -/
inductive Drain where
  | flushed
  | frozen
  | shadow

/-- Where the word at `p`, fetched behind a trap, is in each phase, and where the trap is. -/
def DrainFront (imem : InstructionMemory) (s : CpuTop) (p : Word) (regs : Registers) :
    Drain → Prop
  | .flushed => s.ifIdQ = IfId.zero ∧ s.idExQ = IdEx.zero ∧ s.ir = imem.at p ∧
      s.exMemQ.trap = true
  | .frozen => s.ifIdQ = ifIdD p (imem.at p) ∧ s.idExQ = IdEx.zero ∧ s.ir = 0#32 ∧
      (s.haltSig = true ∨ s.memWbQ.trap = true)
  | .shadow => s.ifIdQ = ifIdD p 0#32 ∧
      s.idExQ = idExD (ifIdD p (imem.at p)) regs DontCare.zero ∧ s.ir = 0#32 ∧ s.haltSig = true

/-- The core in the three cycles behind a trap. No register is written in any of them. -/
structure Draining (imem : InstructionMemory) (s : CpuTop) (p : Word) (regs : Registers)
    (ph : Drain) : Prop where
  front : DrainFront imem s p regs ph
  pcUsed : s.pcUsed = p
  rfWe : s.exMemQ.rfWe = false
  registers : s.registers = regs

/-- The cycle after a trap in EX. -/
theorem Wf.trap_flushed (h : s.Wf) (ht : s.idExQ.trap = true) (d : Word) :
    Draining imem (s.step imem (CpuInput.run d)) (s.pcUsed + 4#32)
      (s.nextRegisters d DontCare.zero) .flushed := by
  have hst := step_flush imem d DontCare.zero (h.flush_of_trap ht)
  rw [pc_of_not_taken (h.taken_of_trap ht _ _)] at hst
  rw [CpuInput.run, hst]
  exact ⟨⟨rfl, rfl, rfl, ht⟩, rfl, (h.coherent.trap ht).1, rfl⟩

variable {p : Word} {regs : Registers}

/-- Two cycles after. The trap in MEM freezes `IMEM` and moves into WB. -/
theorem Draining.flushed_frozen (h : Draining imem s p regs .flushed) (d : Word) :
    Draining imem (s.step imem (CpuInput.run d)) p regs .frozen := by
  obtain ⟨hif, hid, hir, htrap⟩ := h.front
  have hst := step_frozen imem d DontCare.zero (stall_of_idEx_zero hid) (flush_of_idEx_zero hid)
    (by simp [freeze, htrap])
  have hheld : s.nextHalt false = true ∨ (s.nextMemWb ⟨false, d, DontCare.zero⟩).trap = true := by
    -- an older trap may hold WB already
    by_cases hhold : s.haltSig = true ∨ s.memWbQ.trap = true
    · exact .inl (by simp [nextHalt, hhold])
    · simp only [not_or, Bool.not_eq_true] at hhold
      rw [nextMemWb_of_quiet hhold.1 hhold.2]
      exact .inr htrap
  rw [CpuInput.run, hst]
  refine ⟨⟨?_, ?_, rfl, hheld⟩, h.pcUsed, ?_, ?_⟩
  · simp only [h.pcUsed, hir]
  · simp only [hif, idExD_zero]
  · simp only [hid]
    rfl
  · exact (nextRegisters_of_rfWe h.rfWe d _).trans h.registers

/-- Three cycles after. `halt_sig` is set, and the word fetched behind the trap is in EX. -/
theorem Draining.frozen_shadow (h : Draining imem s p regs .frozen) (d : Word) :
    Draining imem (s.step imem (CpuInput.run d)) p regs .shadow := by
  obtain ⟨hif, hid, hir, hheld⟩ := h.front
  have hfreeze : s.freeze = true := by
    rcases hheld with hc | hc
    · simp [freeze, hc]
    · simp [freeze, hc]
  have hst := step_frozen imem d DontCare.zero (stall_of_idEx_zero hid) (flush_of_idEx_zero hid)
    hfreeze
  rw [CpuInput.run, hst]
  refine ⟨⟨?_, ?_, rfl, ?_⟩, h.pcUsed, ?_, ?_⟩
  · simp only [h.pcUsed, hir]
  · simp only [hif, h.registers]
  · simp [nextHalt, hheld]
  · simp only [hid]
    rfl
  · exact (nextRegisters_of_rfWe h.rfWe d _).trans h.registers

/-- `halt_sig` once set stays set, with `RST` low. -/
theorem haltSig_step (h : s.haltSig = true) (imem : InstructionMemory) (d : Word) :
    (s.step imem (CpuInput.run d)).haltSig = true := by
  show s.nextHalt false = true
  simp [nextHalt, h]

end Rv32iPipeline.CpuTop
