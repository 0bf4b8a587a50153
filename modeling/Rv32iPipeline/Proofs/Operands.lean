import Rv32iPipeline.Proofs.Decode

/-!
# `Rv32iPipeline.Proofs.Operands`: forwarding gives EX the current operands

The register file is written in MEM, so the architectural contents in a cycle are
`nextRegisters`: the array with the write of EX/MEM applied. The main facts:

* `CpuTop.forwarded_eq`: the forwarding mux of an EX port shows the architectural value
  of the port's register, when the port is used and no load-use stall is raised for it.
* `CpuTop.captured_eq`: during a load-use stall the mux shows what the register array
  holds. The stall captures that value into ID/EX.
* `CpuTop.operandOk_of_read`: a value read from the array in one cycle is a good captured
  operand in the next.

The invariant between them is `OperandOk`: a captured operand is current in the array,
unless MEM/WB holds a newer value of its register. `WbOk` says that MEM/WB repeats what
the array holds.

The EX/MEM forward always carries the ALU result. It is right only because the hypothesis
`hsel` holds: the instruction in MEM writes the ALU result back. The refinement shows that
no link value is ever in MEM next to an instruction in EX.
-/

set_option autoImplicit false

namespace Rv32iPipeline.CpuTop

/-- MEM/WB repeats the value of the register it names. -/
def WbOk (s : CpuTop) : Prop :=
  s.memWbQ.rfWe = true → s.memWbQ.regWriteAddr ≠ 0#5 →
    s.registers s.memWbQ.regWriteAddr = s.memWbQ.regWriteData

/-- `v` is a good captured operand for register `adr`: it is the value in the array, or
MEM/WB holds a newer one and forwards it. -/
structure OperandOk (s : CpuTop) (adr : BitVec 5) (v : Word) : Prop where
  x0 : adr = 0#5 → v = 0#32
  current : adr ≠ 0#5 →
    (s.memWbQ.rfWe = true ∧ s.memWbQ.regWriteAddr = adr) ∨ v = s.registers adr

/-- The output of the forwarding mux of one EX port, for a captured value `v`. -/
def forwarded (s : CpuTop) (adr : BitVec 5) (used : Bool) (v : Word) : Word :=
  fourToOneMux v s.exMemQ.aluResult s.memWbQ.regWriteData 0#32
    (forwardSel adr s.exMemQ.regWriteAddr s.memWbQ.regWriteAddr s.exMemQ.rfWe s.exMemQ.memRden
      s.memWbQ.rfWe used)

theorem realRs1_eq (s : CpuTop) :
    s.realRs1 = s.forwarded s.idExQ.rs1Addr s.idExQ.rs1Used s.idExQ.rs1 := rfl

theorem realRs2_eq (s : CpuTop) :
    s.realRs2 = s.forwarded s.idExQ.rs2Addr s.idExQ.rs2Used s.idExQ.rs2 := rfl

/-- The stall is raised exactly when a used port reads the load in MEM. -/
theorem stall_eq (s : CpuTop) :
    s.stall = (readsMemLoad s.idExQ.rs1Addr s.exMemQ.regWriteAddr s.exMemQ.rfWe s.exMemQ.memRden
        s.idExQ.rs1Used ||
      readsMemLoad s.idExQ.rs2Addr s.exMemQ.regWriteAddr s.exMemQ.rfWe s.exMemQ.memRden
        s.idExQ.rs2Used) := by
  simp only [stall, forwarding, forwardingUnit]
  split <;> simp_all

/-- The stall behind an instruction `e` that has moved on to MEM. -/
theorem stall_behind {s : CpuTop} {e d : IdEx} {aluResult dataIn : Word} (hid : s.idExQ = d)
    (hmem : s.exMemQ = exMemD e aluResult dataIn) : s.stall = (e.rfWe && e.loadUse d) := by
  rw [stall_eq, hid, hmem]
  simp only [readsMemLoad, IdEx.loadUse, exMemD]
  cases e.rfWe <;> cases e.memRden <;> cases d.rs1Used <;> cases d.rs2Used <;> simp

theorem stallIfId_eq (s : CpuTop) : s.forwarding.stallIfId = s.stall := rfl
theorem stallIdEx_eq (s : CpuTop) : s.forwarding.stallIdEx = s.stall := rfl
theorem flushExMem_eq (s : CpuTop) : s.forwarding.flushExMem = s.stall := rfl

/-- Register `x0` always comes out as zero: a match on it forces the constant, and the
captured value of `x0` is zero. -/
theorem forwarded_x0 (s : CpuTop) (used : Bool) {v : Word} (hv : v = 0#32) :
    s.forwarded 0#5 used v = 0#32 := by
  simp only [forwarded, forwardSel, if_true]
  split
  · rfl
  · split
    · rfl
    · simpa using hv

/-- No forward from MEM: the mux shows MEM/WB's value or the captured one, and both are
what the array holds. -/
theorem forwarded_of_no_mem (s : CpuTop) (hwb : s.WbOk) {adr : BitVec 5} {v : Word}
    (hop : s.OperandOk adr v)
    (hmem : (adr == s.exMemQ.regWriteAddr && s.exMemQ.rfWe && !s.exMemQ.memRden) = false) :
    s.forwarded adr true v = s.registers.read adr := by
  by_cases h0 : adr = 0#5
  -- `x0` reads zero on both sides
  · subst h0
    rw [forwarded_x0 s true (hop.x0 rfl), Registers.read_zero]
  · have hread : s.registers.read adr = s.registers adr := by simp [Registers.read, h0]
    rw [hread]
    simp only [forwarded, forwardSel, hmem, h0, Bool.and_true, Bool.false_eq_true, if_false]
    split
    -- MEM/WB forwards, and it repeats the array
    · rename_i hmatch
      simp only [Bool.and_eq_true, beq_iff_eq] at hmatch
      obtain ⟨rfl, hwe⟩ := hmatch
      exact (hwb hwe h0).symm
    -- no forward: a newer value in MEM/WB would have matched
    · rename_i hmatch
      rcases hop.current h0 with ⟨hwe, haddr⟩ | hv
      · exact absurd (by simp [hwe, haddr]) hmatch
      · exact hv

/-- A used port without a load-use stall shows the architectural value of its register. -/
theorem forwarded_eq (s : CpuTop) (dataIn : Word) (x : DontCare) (hwb : s.WbOk)
    {adr : BitVec 5} {v : Word} (hop : s.OperandOk adr v)
    (hstall : readsMemLoad adr s.exMemQ.regWriteAddr s.exMemQ.rfWe s.exMemQ.memRden true = false)
    (hsel : s.exMemQ.rfWe = true → s.exMemQ.memRden = false → s.exMemQ.rfSel = wbAlu) :
    s.forwarded adr true v = (s.nextRegisters dataIn x).read adr := by
  by_cases h0 : adr = 0#5
  · subst h0
    rw [forwarded_x0 s true (hop.x0 rfl), Registers.read_zero]
  · rw [nextRegisters, Registers.read_write]
    by_cases hmatch : s.exMemQ.rfWe = true ∧ adr = s.exMemQ.regWriteAddr
    · -- the newest value is in MEM; the stall is off, so it is an ALU result
      obtain ⟨hwe, rfl⟩ := hmatch
      have hrden : s.exMemQ.memRden = false := by simpa [readsMemLoad, hwe] using hstall
      rw [if_pos ⟨hwe, rfl, h0⟩, writeData, ExMem.writeData, hsel hwe hrden]
      simp [forwarded, forwardSel, hwe, hrden, h0, wbAlu]
    -- MEM does not write this register, so the array keeps its value there
    · have hmem : (adr == s.exMemQ.regWriteAddr && s.exMemQ.rfWe && !s.exMemQ.memRden)
          = false := by
        simp only [Bool.and_eq_false_iff, beq_eq_false_iff_ne]
        cases hwe : s.exMemQ.rfWe with
        | false => simp
        | true => exact .inl (.inl fun h => hmatch ⟨hwe, h⟩)
      rw [if_neg fun h => hmatch ⟨h.1, h.2.1⟩, forwarded_of_no_mem s hwb hop hmem]

/-- With a load in MEM, a used port shows what the array holds. The load's own value is
not there yet. -/
theorem captured_eq (s : CpuTop) (hwb : s.WbOk) {adr : BitVec 5} {v : Word}
    (hop : s.OperandOk adr v) (hload : s.exMemQ.memRden = true) :
    s.forwarded adr true v = s.registers.read adr :=
  forwarded_of_no_mem s hwb hop (by simp [hload])

/-- Only a load in MEM stalls. -/
theorem memRden_of_stall {s : CpuTop} (hs : s.stall = true) : s.exMemQ.memRden = true := by
  by_contra hne
  simp [stall_eq, readsMemLoad, hne] at hs

/-- In a stall a used port 1 shows what the array holds. -/
theorem captured_realRs1 {s : CpuTop} (hwb : s.WbOk) (hs : s.stall = true)
    (hu : s.idExQ.rs1Used = true) (hop : s.OperandOk s.idExQ.rs1Addr s.idExQ.rs1) :
    s.realRs1 = s.registers.read s.idExQ.rs1Addr := by
  rw [realRs1_eq, hu, captured_eq s hwb hop (memRden_of_stall hs)]

/-- In a stall a used port 2 shows what the array holds. -/
theorem captured_realRs2 {s : CpuTop} (hwb : s.WbOk) (hs : s.stall = true)
    (hu : s.idExQ.rs2Used = true) (hop : s.OperandOk s.idExQ.rs2Addr s.idExQ.rs2) :
    s.realRs2 = s.registers.read s.idExQ.rs2Addr := by
  rw [realRs2_eq, hu, captured_eq s hwb hop (memRden_of_stall hs)]

/-- A value read from the array is a good captured operand in the next cycle: the array
only changes at the register that moves into MEM/WB. -/
theorem operandOk_of_read {s s' : CpuTop} {dataIn : Word} {x : DontCare}
    (hmw : s'.memWbQ = memWbD s.exMemQ (s.writeData dataIn x))
    (hreg : s'.registers = s.nextRegisters dataIn x) (adr : BitVec 5) :
    s'.OperandOk adr (s.registers.read adr) where
  x0 h := by simp [h]
  current h0 := by
    rw [hmw, hreg]
    by_cases hmatch : s.exMemQ.rfWe = true ∧ s.exMemQ.regWriteAddr = adr
    · exact .inl hmatch
    -- the register is not the one that is written
    · right
      simp only [Registers.read, h0, if_false, nextRegisters, Registers.write]
      split
      · rename_i hwe
        have hne : adr ≠ s.exMemQ.regWriteAddr := fun h =>
          hmatch ⟨(Bool.and_eq_true .. ▸ hwe).1, h.symm⟩
        exact (if_neg hne).symm
      · rfl

/-- MEM/WB takes the value that is written to the array. -/
theorem wbOk_of_step {s s' : CpuTop} {dataIn : Word} {x : DontCare}
    (hmw : s'.memWbQ = memWbD s.exMemQ (s.writeData dataIn x))
    (hreg : s'.registers = s.nextRegisters dataIn x) : s'.WbOk := by
  intro hwe h0
  rw [hmw] at hwe h0 ⊢
  have hwe' : s.exMemQ.rfWe = true := hwe
  have h0' : s.exMemQ.regWriteAddr ≠ 0#5 := h0
  rw [hreg, nextRegisters, Registers.write, hwe', Bool.true_and, if_pos (by simpa using h0')]
  exact if_pos rfl

end Rv32iPipeline.CpuTop
