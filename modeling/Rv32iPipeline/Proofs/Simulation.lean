import Rv32iPipeline.Clocked.Schedule
import Rv32iPipeline.Proofs.StepCases

/-!
# `Rv32iPipeline.Proofs.Simulation`: the pipeline follows the sequential machine

`Sim imem s d a ph` relates a state of the core, with `DATA_IN = d` in that cycle, to the
architectural state `a` before the next instruction that completes EX. The phase `ph` says
where that instruction is:

* `refill`: in the output register of `IMEM`, behind two empty slots (after a reset or a
  taken transfer);
* `decode`: in IF/ID, behind one empty slot;
* `execute`: in ID/EX, with its two successors in sequence behind it.

The architectural registers are the array with the pending write of EX/MEM applied. A step
lemma for each phase (`Sim.refill`, `Sim.decode`, `Sim.stalled`, `Sim.commit_taken`,
`Sim.commit_next`) gives the relation of the next cycle, and `core_refines` puts them
together as an instance of `Clocked.Refines`: an instruction completes EX, and the next one
does so after `Arch.delay` extra cycles. A trap in EX ends the relation.

Wrong-path words only ever sit in the front end. They are not related to anything and they
never reach EX.
-/

set_option autoImplicit false

namespace Rv32iPipeline

open CpuTop

/-- The slot that holds the next instruction to complete EX. -/
inductive Phase where
  | refill
  | decode
  | execute

/-- The fetch side of the pipeline, when the next instruction to complete EX is the one at
`pc`. -/
def Front (imem : InstructionMemory) (s : CpuTop) (pc : Word) : Phase → Prop
  | .refill => s.idExQ = IdEx.zero ∧ s.ifIdQ = IfId.zero ∧ s.pcUsed = pc ∧ s.ir = imem.at pc
  | .decode => s.idExQ = IdEx.zero ∧ s.ifIdQ = ifIdD pc (imem.at pc) ∧ s.pcUsed = pc + 4#32 ∧
      s.ir = imem.at (pc + 4#32)
  | .execute => s.ifIdQ = ifIdD (pc + 4#32) (imem.at (pc + 4#32)) ∧
      s.pcUsed = pc + 4#32 + 4#32 ∧ s.ir = imem.at (pc + 4#32 + 4#32)

/-- EX holds instruction `d`, with whatever operands it captured. -/
def CpuTop.InEx (s : CpuTop) (d : IdEx) : Prop :=
  ∃ v1 v2, s.idExQ = { d with rs1 := v1, rs2 := v2 }

/-- The refinement relation. -/
structure Sim (imem : InstructionMemory) (s : CpuTop) (dataIn : Word) (a : Arch) (ph : Phase) :
    Prop where
  front : Front imem s a.pc ph
  inEx : ph = .execute → s.InEx (a.decoded imem)
  regs : s.nextRegisters dataIn DontCare.zero = a.registers
  op1 : s.idExQ.rs1Used = true → s.OperandOk s.idExQ.rs1Addr s.idExQ.rs1
  op2 : s.idExQ.rs2Used = true → s.OperandOk s.idExQ.rs2Addr s.idExQ.rs2
  wb : s.WbOk
  /-- No link value is in MEM next to an instruction in EX. -/
  noLink : ph = .execute → s.exMemQ.rfWe = true → s.exMemQ.memRden = false →
    s.exMemQ.rfSel = wbAlu
  exMemTrap : s.exMemQ.trap = false
  memWbTrap : s.memWbQ.trap = false
  halt : s.haltSig = false

/-! ### The empty slot -/

/-- An empty EX slot never stalls. -/
theorem stall_of_idEx_zero {s : CpuTop} (h : s.idExQ = IdEx.zero) : s.stall = false := by
  simp [stall_eq, h, IdEx.zero, readsMemLoad]

/-- An empty EX slot never flushes. -/
theorem flush_of_idEx_zero {s : CpuTop} (h : s.idExQ = IdEx.zero) : s.flush = false := by
  simp [flush, h, IdEx.zero, IdEx.taken]

/-- An empty EX slot leaves the fetch at `PC_USED + 4`. -/
theorem pc_of_idEx_zero {s : CpuTop} (h : s.idExQ = IdEx.zero) : s.pc false = s.pcUsed + 4#32 := by
  have hsel : s.pcSel = pcPc4 := by simp [pcSel, h, IdEx.zero, IdEx.pcSel, pcDecoder]
  simp only [CpuTop.pc, hsel]
  rfl

/-- Behind an empty EX slot ID/EX takes the decoded IF/ID. -/
theorem nextIdEx_of_idEx_zero {s : CpuTop} (h : s.idExQ = IdEx.zero) (d : Word) (x : DontCare) :
    s.nextIdEx ⟨false, d, x⟩ = idExD s.ifIdQ s.registers x :=
  nextIdEx_of_advance (stall_of_idEx_zero h) (flush_of_idEx_zero h) d x

/-- No stall behind an empty EX/MEM slot. -/
theorem stall_of_exMem_zero {s : CpuTop} (h : s.exMemQ.rfWe = false) : s.stall = false := by
  simp [stall_eq, h, readsMemLoad]

/-- No register write from an EX/MEM slot that does not ask for one. -/
theorem nextRegisters_of_rfWe {s : CpuTop} (h : s.exMemQ.rfWe = false) (d : Word)
    (x : DontCare) : s.nextRegisters d x = s.registers := by
  simp [nextRegisters, h]

/-! ### The step lemmas -/

section
variable {imem : InstructionMemory} {s : CpuTop} {d : Word} {a : Arch}

/-- A related state has no trap behind EX. -/
theorem Sim.freeze_eq {ph : Phase} (h : Sim imem s d a ph) : s.freeze = s.idExQ.trap := by
  simp [freeze, h.exMemTrap, h.memWbTrap, h.halt]

/-- The back end of the next state, for every phase without a trap in EX. -/
theorem Sim.memWb_next {ph : Phase} (h : Sim imem s d a ph) :
    s.nextMemWb ⟨false, d, DontCare.zero⟩ = memWbD s.exMemQ (s.writeData d DontCare.zero) :=
  nextMemWb_of_quiet h.halt h.memWbTrap d _

theorem Sim.halt_next {ph : Phase} (h : Sim imem s d a ph) : s.nextHalt false = false := by
  simp [nextHalt, h.halt, h.memWbTrap]

/-- The register array of the next state is the architectural one. -/
theorem Sim.registers_step {ph : Phase} (h : Sim imem s d a ph) :
    (s.step imem (CpuInput.run d)).registers = a.registers := h.regs

/-- The fields of the relation that any step with `RST` low re-establishes. The operands
of the next EX occupant are good if each used one was read from the array or captured at
the array's value. -/
theorem Sim.next {ph ph' : Phase} (h : Sim imem s d a ph) {a' : Arch} {d' : Word}
    (hfront : Front imem (s.step imem (CpuInput.run d)) a'.pc ph')
    (hinEx : ph' = .execute → (s.step imem (CpuInput.run d)).InEx (a'.decoded imem))
    (hregs : (s.step imem (CpuInput.run d)).nextRegisters d' DontCare.zero = a'.registers)
    (hop1 : (s.step imem (CpuInput.run d)).idExQ.rs1Used = true →
      (s.step imem (CpuInput.run d)).idExQ.rs1
        = s.registers.read (s.step imem (CpuInput.run d)).idExQ.rs1Addr)
    (hop2 : (s.step imem (CpuInput.run d)).idExQ.rs2Used = true →
      (s.step imem (CpuInput.run d)).idExQ.rs2
        = s.registers.read (s.step imem (CpuInput.run d)).idExQ.rs2Addr)
    (hlink : ph' = .execute → (s.step imem (CpuInput.run d)).exMemQ.rfWe = true →
      (s.step imem (CpuInput.run d)).exMemQ.memRden = false →
      (s.step imem (CpuInput.run d)).exMemQ.rfSel = wbAlu)
    (htrap : (s.step imem (CpuInput.run d)).exMemQ.trap = false) :
    Sim imem (s.step imem (CpuInput.run d)) d' a' ph' where
  front := hfront
  inEx := hinEx
  regs := hregs
  op1 hu := by
    rw [hop1 hu]
    exact operandOk_of_read h.memWb_next rfl _
  op2 hu := by
    rw [hop2 hu]
    exact operandOk_of_read h.memWb_next rfl _
  wb := wbOk_of_step h.memWb_next rfl
  noLink := hlink
  exMemTrap := htrap
  memWbTrap := by
    show (s.nextMemWb ⟨false, d, DontCare.zero⟩).trap = false
    -- what is in WB next is in MEM now
    rw [h.memWb_next]
    exact h.exMemTrap
  halt := h.halt_next

/-- The instruction moves from the `IMEM` register to IF/ID. -/
theorem Sim.refill (h : Sim imem s d a .refill) (d' : Word) :
    Sim imem (s.step imem (CpuInput.run d)) d' a .decode := by
  obtain ⟨hid, hif, hpc, hir⟩ := h.front
  have hadv := step_advance imem d DontCare.zero (stall_of_idEx_zero hid)
    (flush_of_idEx_zero hid) (by rw [h.freeze_eq, hid]; rfl)
  have hidEx : (s.step imem (CpuInput.run d)).idExQ = IdEx.zero := by
    rw [CpuInput.run, hadv, hif]
    exact idExD_zero _
  have hexMem : (s.step imem (CpuInput.run d)).exMemQ.rfWe = false := by
    rw [CpuInput.run, hadv, hid]
    rfl
  refine h.next ⟨hidEx, ?_, ?_, ?_⟩ Phase.noConfusion ?_ ?_ ?_ Phase.noConfusion ?_
  · rw [CpuInput.run, hadv, hpc, hir]
  · rw [CpuInput.run, hadv, pc_of_idEx_zero hid, hpc]
  · rw [CpuInput.run, hadv, pc_of_idEx_zero hid, hpc]
  · rw [nextRegisters_of_rfWe hexMem, h.registers_step]
  · simp [hidEx, IdEx.zero]
  · simp [hidEx, IdEx.zero]
  · rw [CpuInput.run, hadv, hid]
    rfl

/-- The instruction moves from IF/ID to EX. -/
theorem Sim.decode (h : Sim imem s d a .decode) (d' : Word) :
    Sim imem (s.step imem (CpuInput.run d)) d' a .execute ∧
      (s.step imem (CpuInput.run d)).stall = false := by
  obtain ⟨hid, hif, hpc, hir⟩ := h.front
  have hadv := step_advance imem d DontCare.zero (stall_of_idEx_zero hid)
    (flush_of_idEx_zero hid) (by rw [h.freeze_eq, hid]; rfl)
  have hidEx : (s.step imem (CpuInput.run d)).idExQ
      = idExD (ifIdD a.pc (imem.at a.pc)) s.registers DontCare.zero := by
    rw [CpuInput.run, hadv, hif]
  have hexMem : (s.step imem (CpuInput.run d)).exMemQ.rfWe = false := by
    rw [CpuInput.run, hadv, hid]
    rfl
  refine ⟨h.next ⟨?_, ?_, ?_⟩ ?_ ?_ ?_ ?_ ?_ ?_, stall_of_exMem_zero hexMem⟩
  · rw [CpuInput.run, hadv, hpc, hir]
  · rw [CpuInput.run, hadv, pc_of_idEx_zero hid, hpc]
  · rw [CpuInput.run, hadv, pc_of_idEx_zero hid, hpc]
  · exact fun _ => ⟨_, _, hidEx⟩
  · rw [nextRegisters_of_rfWe hexMem, h.registers_step]
  · intro _
    rw [hidEx]
    rfl
  · intro _
    rw [hidEx]
    rfl
  -- MEM is empty behind the empty slot
  · intro _ hwe
    rw [hexMem] at hwe
    exact absurd hwe Bool.false_ne_true
  · rw [CpuInput.run, hadv, hid]
    rfl

/-! The instruction in EX. -/

/-- The occupant of EX is coherent. -/
theorem Sim.coherent (h : Sim imem s d a .execute) : s.idExQ.Coherent := by
  obtain ⟨v1, v2, hv⟩ := h.inEx rfl
  rw [hv]
  exact (idExD_coherent ..).withOperands v1 v2

/-- The trap bit in EX is the instruction's. -/
theorem Sim.trap_eq (h : Sim imem s d a .execute) : s.idExQ.trap = (a.decoded imem).trap := by
  obtain ⟨v1, v2, hv⟩ := h.inEx rfl
  rw [hv]

/-- Port 1 shows the architectural operand, without a stall. -/
theorem Sim.realRs1_eq (h : Sim imem s d a .execute) (hs : s.stall = false)
    (hu : s.idExQ.rs1Used = true) : s.realRs1 = (a.decoded imem).rs1 := by
  have haddr : s.idExQ.rs1Addr = rs1Of (imem.at a.pc) := by
    obtain ⟨v1, v2, hv⟩ := h.inEx rfl
    rw [hv]
    rfl
  rw [stall_eq, Bool.or_eq_false_iff, hu] at hs
  rw [CpuTop.realRs1_eq, hu,
    forwarded_eq s d DontCare.zero h.wb (h.op1 hu) hs.1 (h.noLink rfl), h.regs, haddr]
  rfl

/-- Port 2 shows the architectural operand, without a stall. -/
theorem Sim.realRs2_eq (h : Sim imem s d a .execute) (hs : s.stall = false)
    (hu : s.idExQ.rs2Used = true) : s.realRs2 = (a.decoded imem).rs2 := by
  have haddr : s.idExQ.rs2Addr = rs2Of (imem.at a.pc) := by
    obtain ⟨v1, v2, hv⟩ := h.inEx rfl
    rw [hv]
    rfl
  rw [stall_eq, Bool.or_eq_false_iff, hu] at hs
  rw [CpuTop.realRs2_eq, hu,
    forwarded_eq s d DontCare.zero h.wb (h.op2 hu) hs.2 (h.noLink rfl), h.regs, haddr]
  rfl

/-- The EX stage takes the decision of the sequential machine. -/
theorem Sim.taken_eq (h : Sim imem s d a .execute) (hs : s.stall = false) :
    s.idExQ.taken s.realRs1 s.realRs2 = a.taken imem := by
  rw [h.coherent.taken_congr (h.realRs1_eq hs) (h.realRs2_eq hs)]
  obtain ⟨v1, v2, hv⟩ := h.inEx rfl
  rw [hv]
  rfl

/-- `PC` is the address of the next instruction, when the fetch is redirected. -/
theorem Sim.pc_of_taken (h : Sim imem s d a .execute) (hs : s.stall = false)
    (ht : a.taken imem = true) : s.pc false = a.nextPc imem := by
  have hsel : s.pcSel ≠ pcPc4 := h.coherent.pcSel_of_taken ((h.taken_eq hs).trans ht)
  -- the sequential input of the PC mux does not matter
  have hany : ∀ p q : Word, programCounter false s.pcSel p (s.idExQ.targets s.realRs1)
      = programCounter false s.pcSel q (s.idExQ.targets s.realRs1) := by
    intro p q
    rcases sel_cases s.pcSel with hc | hc | hc | hc
    · exact absurd hc hsel
    all_goals rw [hc]; rfl
  rw [CpuTop.pc, hany _ (a.pc + 4#32), CpuTop.pcSel,
    h.coherent.nextPc_congr (h.realRs1_eq hs) (h.realRs2_eq hs)]
  obtain ⟨v1, v2, hv⟩ := h.inEx rfl
  rw [hv]
  rfl

/-- `PC` runs on in sequence, when the fetch is not redirected. -/
theorem Sim.pc_of_not_taken (h : Sim imem s d a .execute) (hs : s.stall = false)
    (ht : a.taken imem = false) : s.pc false = a.pc + 4#32 + 4#32 + 4#32 := by
  have hsel : s.pcSel = pcPc4 := IdEx.Coherent.pcSel_of_not_taken ((h.taken_eq hs).trans ht)
  rw [CpuTop.pc, hsel, h.front.2.1]
  rfl

/-- The next instruction of the sequential machine follows in sequence. -/
theorem Arch.nextPc_of_not_taken (imem : InstructionMemory) {a : Arch}
    (ht : a.taken imem = false) : a.nextPc imem = a.pc + 4#32 := by
  rw [Arch.nextPc, IdEx.Coherent.pcSel_of_not_taken ht]
  rfl

/-- The value that EX/MEM writes back in the next cycle is the sequential result. -/
theorem Sim.result_eq (h : Sim imem s d a .execute) (hs : s.stall = false) (d' : Word) :
    (exMemD s.idExQ s.aluResult d).writeData d' DontCare.zero = a.result imem d' := by
  have hcongr : (exMemD s.idExQ s.aluResult d).writeData d' DontCare.zero
      = fourToOneMux (s.idExQ.pc + 4#32) DontCare.zero.wbCsr d'
          (s.idExQ.aluResult (a.decoded imem).rs1 (a.decoded imem).rs2) s.idExQ.rfSel :=
    h.coherent.writeBack_congr (h.realRs1_eq hs) (h.realRs2_eq hs) (fun _ => rfl)
  obtain ⟨v1, v2, hv⟩ := h.inEx rfl
  rw [hcongr, hv]
  rfl

/-- A stall: the instruction stays in EX and captures its operands. The next cycle does not
stall. -/
theorem Sim.stalled (h : Sim imem s d a .execute) (hs : s.stall = true) (d' : Word) :
    Sim imem (s.step imem (CpuInput.run d)) d' a .execute ∧
      (s.step imem (CpuInput.run d)).stall = false := by
  have hst := step_stall imem d DontCare.zero hs
  have hidEx : (s.step imem (CpuInput.run d)).idExQ
      = { s.idExQ with rs1 := s.realRs1, rs2 := s.realRs2 } := by rw [CpuInput.run, hst]
  have hexMem : (s.step imem (CpuInput.run d)).exMemQ = ExMem.zero := by rw [CpuInput.run, hst]
  have hwe : (s.step imem (CpuInput.run d)).exMemQ.rfWe = false := by rw [hexMem]; rfl
  refine ⟨h.next ?_ ?_ ?_ ?_ ?_ ?_ ?_, stall_of_exMem_zero hwe⟩
  · rw [CpuInput.run, hst]
    exact h.front
  · intro _
    obtain ⟨v1, v2, hv⟩ := h.inEx rfl
    exact ⟨s.realRs1, s.realRs2, by rw [hidEx, hv]⟩
  · rw [nextRegisters_of_rfWe hwe, h.registers_step]
  -- captured from the array; the load's own value comes from WB in the next cycle
  · intro hu
    rw [hidEx] at hu ⊢
    exact captured_realRs1 h.wb hs hu (h.op1 hu)
  · intro hu
    rw [hidEx] at hu ⊢
    exact captured_realRs2 h.wb hs hu (h.op2 hu)
  · intro _ hc
    rw [hwe] at hc
    exact absurd hc Bool.false_ne_true
  · rw [hexMem]
    rfl

/-- The architectural registers after an instruction completes EX. -/
theorem Sim.registers_commit (h : Sim imem s d a .execute) (hs : s.stall = false) {d' : Word}
    (hexMem : (s.step imem (CpuInput.run d)).exMemQ = exMemD s.idExQ s.aluResult d) :
    (s.step imem (CpuInput.run d)).nextRegisters d' DontCare.zero = (a.step imem d').registers := by
  rw [nextRegisters, CpuTop.writeData, hexMem, h.registers_step, h.result_eq hs d']
  obtain ⟨v1, v2, hv⟩ := h.inEx rfl
  rw [hv]
  rfl

/-- A jump or a taken branch completes EX: the pipeline refills at its target. -/
theorem Sim.commit_taken (h : Sim imem s d a .execute) (hs : s.stall = false)
    (ht : a.taken imem = true) (htrap : s.idExQ.trap = false) (d' : Word) :
    Sim imem (s.step imem (CpuInput.run d)) d' (a.step imem d') .refill := by
  have hflush : s.flush = true := by simp [flush, hs, h.taken_eq hs, ht]
  have hst := step_flush imem d DontCare.zero hflush
  have hidEx : (s.step imem (CpuInput.run d)).idExQ = IdEx.zero := by rw [CpuInput.run, hst]
  refine h.next ⟨hidEx, ?_, ?_, ?_⟩ Phase.noConfusion ?_ ?_ ?_ Phase.noConfusion ?_
  · rw [CpuInput.run, hst]
  · rw [CpuInput.run, hst, h.pc_of_taken hs ht]
    rfl
  · rw [CpuInput.run, hst, h.pc_of_taken hs ht]
    rfl
  · exact h.registers_commit hs (by rw [CpuInput.run, hst])
  · simp [hidEx, IdEx.zero]
  · simp [hidEx, IdEx.zero]
  · rw [CpuInput.run, hst]
    exact htrap

/-- Any other instruction completes EX: its successor takes its place. That one stalls at
once exactly when it uses the load that has just left EX. -/
theorem Sim.commit_next (h : Sim imem s d a .execute) (hs : s.stall = false)
    (ht : a.taken imem = false) (htrap : s.idExQ.trap = false) (d' : Word) :
    Sim imem (s.step imem (CpuInput.run d)) d' (a.step imem d') .execute ∧
      (s.step imem (CpuInput.run d)).stall
        = (a.decoded imem).loadUse ((a.step imem d').decoded imem) := by
  have hflush : s.flush = false := by simp [flush, hs, h.taken_eq hs, ht, htrap]
  have hst := step_advance imem d DontCare.zero hs hflush (by rw [h.freeze_eq, htrap])
  obtain ⟨hif, hpc, hir⟩ := h.front
  have hpc' : (a.step imem d').pc = a.pc + 4#32 := Arch.nextPc_of_not_taken imem ht
  have hidEx : (s.step imem (CpuInput.run d)).idExQ
      = idExD (ifIdD (a.step imem d').pc (imem.at (a.step imem d').pc)) s.registers
          DontCare.zero := by
    rw [CpuInput.run, hst, hif, hpc']
  have hexMem : (s.step imem (CpuInput.run d)).exMemQ = exMemD s.idExQ s.aluResult d := by
    rw [CpuInput.run, hst]
  refine ⟨h.next ⟨?_, ?_, ?_⟩ ?_ ?_ ?_ ?_ ?_ ?_, ?_⟩
  · rw [CpuInput.run, hst, hpc', hpc, hir]
  · rw [CpuInput.run, hst, hpc', h.pc_of_not_taken hs ht]
  · rw [CpuInput.run, hst, hpc', h.pc_of_not_taken hs ht]
  · exact fun _ => ⟨_, _, hidEx⟩
  · exact h.registers_commit hs hexMem
  · intro _
    rw [hidEx]
    rfl
  · intro _
    rw [hidEx]
    rfl
  · -- not taken, so the instruction that moves to MEM is no jump
    intro _ hwe hrden
    rw [hexMem] at hwe hrden ⊢
    exact h.coherent.alu_of_not_taken ((h.taken_eq hs).trans ht) hwe hrden
  · rw [hexMem]
    exact htrap
  -- the stall of the next cycle is the load-use match of the two instructions
  · have hstall := stall_behind hidEx hexMem
    obtain ⟨v1, v2, hv⟩ := h.inEx rfl
    have hld := h.coherent.load
    rw [hv] at hld hstall
    rw [hstall]
    show ((a.decoded imem).rfWe && (a.decoded imem).loadUse _) = (a.decoded imem).loadUse _
    cases hrden : (a.decoded imem).memRden with
    | false => simp [IdEx.loadUse, hrden]
    | true =>
        have hwe : (a.decoded imem).rfWe = true := (hld hrden).1
        rw [hwe, Bool.true_and]
        rfl

end

end Rv32iPipeline
