import Rv32iPipeline.Proofs.Operands

/-!
# `Rv32iPipeline.Proofs.StepCases`: what one clock edge can do

With `RST` low an edge takes one of four forms in the front end, and the lemmas
`step_stall`, `step_flush`, `step_advance` and `step_frozen` give the whole next state in
each. With `RST` high, `step_reset` gives the cleared pipeline. The invariants and the
refinement use these equations and never open `CpuTop.step` again.

`hazard_eq` states the flush condition once: no stall, and EX holds a jump, a taken branch
or a trap.
-/

set_option autoImplicit false

namespace Rv32iPipeline.CpuTop

/-- The flush condition of the hazard unit. -/
def flush (s : CpuTop) : Bool :=
  !s.stall && (s.idExQ.taken s.realRs1 s.realRs2 || s.idExQ.trap)

/-- The branches of the hazard unit as one formula. Both outputs are the same. -/
theorem hazardUnit_eq (branchI jalI jalrI : Bool) (pcSel : BitVec 2) (ifIdStall trap : Bool) :
    hazardUnit branchI jalI jalrI pcSel ifIdStall trap =
      ⟨!ifIdStall && (jalI || jalrI || (branchI && pcSel == pcBranch) || trap),
        !ifIdStall && (jalI || jalrI || (branchI && pcSel == pcBranch) || trap)⟩ := by
  unfold hazardUnit
  -- `PC_SEL` enters through one comparison, and the rest is a table of five bits
  cases pcSel == pcBranch <;> revert branchI jalI jalrI ifIdStall trap <;> decide

theorem hazard_eq (s : CpuTop) : s.hazard = ⟨s.flush, s.flush⟩ :=
  hazardUnit_eq ..

theorem flush_of_stall {s : CpuTop} (h : s.stall = true) : s.flush = false := by
  simp [flush, h]

theorem stall_of_flush {s : CpuTop} (h : s.flush = true) : s.stall = false := by
  simp only [flush, Bool.and_eq_true, Bool.not_eq_true'] at h
  exact h.1

/-- The back end of a step with `RST` low. -/
theorem nextMemWb_of_quiet {s : CpuTop} (hh : s.haltSig = false) (ht : s.memWbQ.trap = false)
    (d : Word) (x : DontCare) :
    s.nextMemWb ⟨false, d, x⟩ = memWbD s.exMemQ (s.writeData d x) := by
  simp [nextMemWb, hh, ht]

/-- EX/MEM takes the instruction in EX, unless it is stalled. -/
theorem nextExMem_of_not_stall {s : CpuTop} (h : s.stall = false) (d : Word) (x : DontCare) :
    s.nextExMem ⟨false, d, x⟩ = exMemD s.idExQ s.aluResult d := by
  simp [nextExMem, flushExMem_eq, h]

/-- A stall puts an empty slot into EX/MEM. -/
theorem nextExMem_of_stall {s : CpuTop} (h : s.stall = true) (d : Word) (x : DontCare) :
    s.nextExMem ⟨false, d, x⟩ = ExMem.zero := by
  simp [nextExMem, flushExMem_eq, h]

/-- ID/EX takes the decoded IF/ID, when it is neither stalled nor flushed. -/
theorem nextIdEx_of_advance {s : CpuTop} (hs : s.stall = false) (hf : s.flush = false) (d : Word)
    (x : DontCare) : s.nextIdEx ⟨false, d, x⟩ = idExD s.ifIdQ s.registers x := by
  simp [nextIdEx, hazard_eq, hf, stallIdEx_eq, hs]

variable (imem : InstructionMemory) {s : CpuTop} (d : Word) (x : DontCare)

/-- A load-use stall: the front end holds, ID/EX captures its operands, EX/MEM gets an empty
slot. -/
theorem step_stall (h : s.stall = true) :
    s.step imem ⟨false, d, x⟩ =
      { ir := s.ir
        pcUsed := s.pcUsed
        ifIdQ := s.ifIdQ
        idExQ := { s.idExQ with rs1 := s.realRs1, rs2 := s.realRs2 }
        exMemQ := ExMem.zero
        memWbQ := s.nextMemWb ⟨false, d, x⟩
        haltSig := s.nextHalt false
        registers := s.nextRegisters d x } := by
  simp [step, nextFetch, nextIfId, nextIdEx, nextExMem, hazard_eq, flush_of_stall h,
    stallIfId_eq, stallIdEx_eq, flushExMem_eq, h]

/-- A flush: IF/ID and ID/EX are cleared and `IMEM` fetches at `PC`. -/
theorem step_flush (h : s.flush = true) :
    s.step imem ⟨false, d, x⟩ =
      { ir := imem.at (s.pc false)
        pcUsed := s.pc false
        ifIdQ := IfId.zero
        idExQ := IdEx.zero
        exMemQ := exMemD s.idExQ s.aluResult d
        memWbQ := s.nextMemWb ⟨false, d, x⟩
        haltSig := s.nextHalt false
        registers := s.nextRegisters d x } := by
  simp [step, nextFetch, nextIfId, nextIdEx, nextExMem, hazard_eq, h, stall_of_flush h,
    stallIfId_eq, flushExMem_eq]

/-- An advance: every slot moves on and `IMEM` fetches at `PC`. -/
theorem step_advance (hs : s.stall = false) (hf : s.flush = false) (hz : s.freeze = false) :
    s.step imem ⟨false, d, x⟩ =
      { ir := imem.at (s.pc false)
        pcUsed := s.pc false
        ifIdQ := ifIdD s.pcUsed s.ir
        idExQ := idExD s.ifIdQ s.registers x
        exMemQ := exMemD s.idExQ s.aluResult d
        memWbQ := s.nextMemWb ⟨false, d, x⟩
        haltSig := s.nextHalt false
        registers := s.nextRegisters d x } := by
  simp [step, nextFetch, nextIfId, nextIdEx, nextExMem, hazard_eq, hs, hf, hz,
    stallIfId_eq, stallIdEx_eq, flushExMem_eq]

/-- A frozen advance: every slot moves on, and `IMEM` puts out a zero word. -/
theorem step_frozen (hs : s.stall = false) (hf : s.flush = false) (hz : s.freeze = true) :
    s.step imem ⟨false, d, x⟩ =
      { ir := 0#32
        pcUsed := s.pcUsed
        ifIdQ := ifIdD s.pcUsed s.ir
        idExQ := idExD s.ifIdQ s.registers x
        exMemQ := exMemD s.idExQ s.aluResult d
        memWbQ := s.nextMemWb ⟨false, d, x⟩
        haltSig := s.nextHalt false
        registers := s.nextRegisters d x } := by
  simp [step, nextFetch, nextIfId, nextIdEx, nextExMem, hazard_eq, hs, hf, hz,
    stallIfId_eq, stallIdEx_eq, flushExMem_eq]

/-- An edge with `RST` high clears the four pipeline registers. `IMEM`, `halt_sig` and the
register array have no reset. -/
theorem step_reset :
    s.step imem ⟨true, d, x⟩ =
      { ir := (s.nextFetch imem true).1
        pcUsed := (s.nextFetch imem true).2
        ifIdQ := IfId.zero
        idExQ := IdEx.zero
        exMemQ := ExMem.zero
        memWbQ := MemWb.zero
        haltSig := s.haltSig
        registers := s.nextRegisters d x } := by
  simp [step, nextIfId, nextIdEx, nextExMem, nextMemWb, nextHalt]

end Rv32iPipeline.CpuTop
