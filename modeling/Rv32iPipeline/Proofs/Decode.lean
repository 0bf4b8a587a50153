import Rv32iPipeline.Spec.Sequential

/-!
# `Rv32iPipeline.Proofs.Decode`: what a decoded instruction can ask for

With every `'X` read as 0, the control bits of an instruction are coherent: a load
writes back `DATA_IN` and nothing else does, an unused source port is one that no block
of the EX stage listens to, a trap asks for nothing else. `IdEx.Coherent` collects these
facts about the contents of ID/EX. `idExD_coherent` proves them for every word. The
later modules use them and never open the decoder again.

The `*_congr` lemmas draw the consequence that the refinement needs: what an
instruction does depends only on the operands it is decoded as using.
-/

set_option autoImplicit false

namespace Rv32iPipeline

/-! ### The muxes -/

@[simp] theorem fourToOneMux_00 (a b c d : Word) : fourToOneMux a b c d 0b00#2 = a := rfl
@[simp] theorem fourToOneMux_01 (a b c d : Word) : fourToOneMux a b c d 0b01#2 = b := rfl
@[simp] theorem fourToOneMux_10 (a b c d : Word) : fourToOneMux a b c d 0b10#2 = c := rfl
@[simp] theorem fourToOneMux_11 (a b c d : Word) : fourToOneMux a b c d 0b11#2 = d := rfl

/-- Pin `A` does not reach the output under another select. -/
theorem fourToOneMux_congr_a {a a' b c d : Word} {sel : BitVec 2} (h : sel ≠ 0b00#2) :
    fourToOneMux a b c d sel = fourToOneMux a' b c d sel := by
  rcases sel_cases sel with rfl | rfl | rfl | rfl
  · exact absurd rfl h
  all_goals rfl

/-- Pin `C` does not reach the output under another select. -/
theorem fourToOneMux_congr_c {a b c c' d : Word} {sel : BitVec 2} (h : sel ≠ 0b10#2) :
    fourToOneMux a b c d sel = fourToOneMux a b c' d sel := by
  rcases sel_cases sel with rfl | rfl | rfl | rfl
  · rfl
  · rfl
  · exact absurd rfl h
  · rfl

/-- The `LUI` copy ignores `srcB`. -/
theorem alu_luiCopy (srcA srcB : Word) : alu srcA srcB aluLuiCopy = srcA := rfl

/-! ### Coherent contents of ID/EX -/

/-- The relations between the control bits of one instruction. -/
structure IdEx.Coherent (d : IdEx) : Prop where
  /-- A load writes back the bus answer, and neither stores, jumps nor traps. -/
  load : d.memRden = true → d.rfWe = true ∧ d.rfSel = wbDataIn ∧ d.memWe = false ∧
    d.branchI = false ∧ d.jalI = false ∧ d.jalrI = false ∧ d.trap = false
  /-- Only a load writes back the bus answer. -/
  dataIn : d.rfSel = wbDataIn → d.memRden = true
  /-- Nothing selects the open pin of the write-back mux. -/
  csr : d.rfSel ≠ wbCsr
  /-- A register write that is neither a load nor a link is the ALU result. -/
  alu : d.rfWe = true → d.memRden = false → d.jalI = false → d.jalrI = false → d.rfSel = wbAlu
  /-- With port 1 unused, no block listens to it. -/
  rs1Unused : d.rs1Used = false → d.branchI = false ∧ d.jalrI = false ∧ d.memWe = false ∧
    d.memRden = false ∧ (d.rfSel = wbAlu → d.srcASel = srcaUType)
  /-- With port 2 unused, no block listens to it. -/
  rs2Unused : d.rs2Used = false → d.branchI = false ∧ d.memWe = false ∧
    (d.rfSel = wbAlu ∨ d.memRden = true → d.srcBSel ≠ srcbRs2 ∨ d.aluFun = aluLuiCopy)
  /-- A trap asks for nothing else. -/
  trap : d.trap = true → d.rfWe = false ∧ d.memWe = false ∧ d.memRden = false ∧
    d.branchI = false ∧ d.jalI = false ∧ d.jalrI = false ∧ d.rs1Used = false ∧ d.rs2Used = false
  /-- At most one of the jump and branch flags is raised. -/
  jal : d.jalI = true → d.branchI = false ∧ d.jalrI = false
  jalr : d.jalrI = true → d.branchI = false ∧ d.jalI = false

/-- The captured operands do not matter for coherence. -/
theorem IdEx.Coherent.withOperands {d : IdEx} (h : d.Coherent) (v1 v2 : Word) :
    { d with rs1 := v1, rs2 := v2 }.Coherent :=
  ⟨h.load, h.dataIn, h.csr, h.alu, h.rs1Unused, h.rs2Unused, h.trap, h.jal, h.jalr⟩

/-- Every word decodes to a coherent instruction. -/
theorem idExD_coherent (q : IfId) (regs : Registers) :
    (idExD q regs DontCare.zero).Coherent := by
  -- each relation is checked in each arm of the decoder
  constructor <;> simp only [idExD, controlUnitDecoder] <;> split <;>
    simp [Control.base, DontCare.zero, wbDataIn, wbCsr, wbAlu, wbPc4, srcaUType, srcaRs1,
      srcbRs2, srcbPc, srcbIType, srcbSType]

theorem Arch.decoded_coherent (imem : InstructionMemory) (a : Arch) :
    (a.decoded imem).Coherent :=
  idExD_coherent (ifIdD a.pc (imem.at a.pc)) a.registers

/-- A load writes the bus answer to its destination, unless that is `x0`. -/
theorem Arch.regWrite_of_load {imem : InstructionMemory} {a : Arch}
    (h : (a.decoded imem).memRden = true) (load : Word) :
    a.regWrite imem load = if (a.decoded imem).regWriteAddr = 0#5 then []
      else [((a.decoded imem).regWriteAddr, load)] := by
  obtain ⟨hwe, hsel, -⟩ := (a.decoded_coherent imem).load h
  rw [regWrite, result, hwe, hsel, Bool.true_and]
  by_cases hrd : (a.decoded imem).regWriteAddr = 0#5
  · simp [hrd]
  · simp [hrd, wbDataIn]

/-- The trap bit is set by `opcode` 1110011 with `func3` 000 and by nothing else. -/
theorem idExD_trap (q : IfId) (regs : Registers) (x : DontCare) :
    (idExD q regs x).trap = isTrap q.ir := by
  -- only one arm drives `system_call`
  simp only [idExD, controlUnitDecoder, isTrap]
  split <;> simp_all [Control.base]

theorem Arch.decoded_trap (imem : InstructionMemory) (a : Arch) :
    (a.decoded imem).trap = isTrap (imem.at a.pc) :=
  idExD_trap (ifIdD a.pc (imem.at a.pc)) a.registers DontCare.zero

/-- The sequential machine at a word that `writesNothing` writes nothing. -/
theorem writesNothing_iff (imem : InstructionMemory) (a : Arch) (load : Word) :
    writesNothing (imem.at a.pc) = true
      ↔ (a.decoded imem).memWe = false ∧ a.regWrite imem load = [] := by
  have hdec : writesNothing (imem.at a.pc) = (!(a.decoded imem).memWe &&
      (!(a.decoded imem).rfWe || (a.decoded imem).regWriteAddr == 0#5)) := rfl
  rw [hdec, Arch.regWrite]
  cases (a.decoded imem).rfWe <;> simp

/-- No implemented instruction and no `FENCE` traps. -/
theorem idExD_trap_of_implemented {q : IfId} (regs : Registers) (x : DontCare)
    (h : isImplemented q.ir = true ∨ isFence q.ir = true) : (idExD q regs x).trap = false := by
  rw [idExD_trap, isTrap, Bool.and_eq_false_iff]
  left
  rw [beq_eq_false_iff_ne]
  intro hop
  simp [isImplemented, isFence, hop] at h

/-- The empty slot is coherent: it is what a cleared IF/ID decodes to. -/
theorem idExD_zero (regs : Registers) : idExD IfId.zero regs DontCare.zero = IdEx.zero := by
  rfl

theorem idEx_zero_coherent : IdEx.zero.Coherent :=
  idExD_zero (fun _ => 0#32) ▸ idExD_coherent IfId.zero _

/-! ### The EX stage listens to the used operands only -/

/-- The branch comparator does not matter to an instruction that is no branch. -/
theorem IdEx.pcSel_congr_of_not_branch {d : IdEx} (h : d.branchI = false)
    (r1 r2 r1' r2' : Word) : d.pcSel r1 r2 = d.pcSel r1' r2' := by
  simp only [IdEx.pcSel, h]
  cases d.jalI <;> cases d.jalrI <;> simp only [pcDecoder]

/-- `PC_SEL` depends on the used operands only. -/
theorem IdEx.Coherent.pcSel_congr {d : IdEx} (h : d.Coherent) {r1 r2 r1' r2' : Word}
    (h1 : d.rs1Used = true → r1 = r1') (h2 : d.rs2Used = true → r2 = r2') :
    d.pcSel r1 r2 = d.pcSel r1' r2' := by
  cases hu1 : d.rs1Used with
  | false => exact IdEx.pcSel_congr_of_not_branch (h.rs1Unused hu1).1 ..
  | true =>
      cases hu2 : d.rs2Used with
      | false => exact IdEx.pcSel_congr_of_not_branch (h.rs2Unused hu2).1 ..
      | true => rw [h1 hu1, h2 hu2]

/-- Whether the fetch is redirected depends on the used operands only. -/
theorem IdEx.Coherent.taken_congr {d : IdEx} (h : d.Coherent) {r1 r2 r1' r2' : Word}
    (h1 : d.rs1Used = true → r1 = r1') (h2 : d.rs2Used = true → r2 = r2') :
    d.taken r1 r2 = d.taken r1' r2' := by
  simp only [IdEx.taken, h.pcSel_congr h1 h2]

/-- The next fetch address depends on the used operands only. -/
theorem IdEx.Coherent.nextPc_congr {d : IdEx} (h : d.Coherent) {r1 r2 r1' r2' : Word}
    (h1 : d.rs1Used = true → r1 = r1') (h2 : d.rs2Used = true → r2 = r2') (p : Word) :
    programCounter false (d.pcSel r1 r2) p (d.targets r1)
      = programCounter false (d.pcSel r1' r2') p (d.targets r1') := by
  rw [h.pcSel_congr h1 h2]
  cases hu1 : d.rs1Used with
  | true => rw [h1 hu1]
  | false =>
      -- only `jalr` reads the base, and `PC_SEL` does not pick it
      obtain ⟨hb, hjr, -⟩ := h.rs1Unused hu1
      simp only [IdEx.pcSel, hb, hjr]
      cases d.jalI <;> rfl

/-- The ALU result depends on the used operands only, where it is used at all: as the
write-back value or as an address. -/
theorem IdEx.Coherent.aluResult_congr {d : IdEx} (h : d.Coherent) {r1 r2 r1' r2' : Word}
    (h1 : d.rs1Used = true → r1 = r1') (h2 : d.rs2Used = true → r2 = r2')
    (hused : d.rfSel = wbAlu ∨ d.memWe = true ∨ d.memRden = true) :
    d.aluResult r1 r2 = d.aluResult r1' r2' := by
  have hA : twoToOneMux r1 d.uType d.srcASel = twoToOneMux r1' d.uType d.srcASel := by
    cases hu1 : d.rs1Used with
    | true => rw [h1 hu1]
    | false =>
        obtain ⟨-, -, hwe, hrden, hsrc⟩ := h.rs1Unused hu1
        have hsel : d.rfSel = wbAlu := by simpa [hwe, hrden] using hused
        -- neither a store nor a load, so the result is used for the write-back only
        rw [hsrc hsel]
        rfl
  cases hu2 : d.rs2Used with
  | true => simp only [IdEx.aluResult, hA, h2 hu2]
  | false =>
      obtain ⟨-, hwe, hsrc⟩ := h.rs2Unused hu2
      have hsel : d.rfSel = wbAlu ∨ d.memRden = true := by simpa [hwe] using hused
      rcases hsrc hsel with hne | hcopy
      · have hB : fourToOneMux r2 d.iType d.sType d.pc d.srcBSel
            = fourToOneMux r2' d.iType d.sType d.pc d.srcBSel := fourToOneMux_congr_a hne
        rw [IdEx.aluResult, IdEx.aluResult, hA, hB]
      · -- `LUI` copies `srcA`, so `srcB` may be anything
        rw [IdEx.aluResult, IdEx.aluResult, hA, hcopy, alu_luiCopy, alu_luiCopy]

/-- The write-back value depends on the used operands, and on the bus answer if the
instruction is a load. -/
theorem IdEx.Coherent.writeBack_congr {d : IdEx} (h : d.Coherent) {r1 r2 r1' r2' : Word}
    (h1 : d.rs1Used = true → r1 = r1') (h2 : d.rs2Used = true → r2 = r2')
    {b b' load load' : Word} (hload : d.memRden = true → load = load') :
    fourToOneMux (d.pc + 4#32) b load (d.aluResult r1 r2) d.rfSel
      = fourToOneMux (d.pc + 4#32) b' load' (d.aluResult r1' r2') d.rfSel := by
  rcases sel_cases d.rfSel with hs | hs | hs | hs
  · simp only [hs, fourToOneMux_00]
  · exact absurd hs h.csr
  · simp only [hs, fourToOneMux_10, hload (h.dataIn hs)]
  · simp only [hs, fourToOneMux_11, h.aluResult_congr h1 h2 (Or.inl hs)]

/-- An instruction that redirects nothing leaves the fetch at `PC + 4`. -/
theorem IdEx.Coherent.pcSel_of_not_taken {d : IdEx} {r1 r2 : Word} (h : d.taken r1 r2 = false) :
    d.pcSel r1 r2 = pcPc4 := by
  simp only [IdEx.taken, Bool.or_eq_false_iff] at h
  obtain ⟨⟨hj, hjr⟩, hb⟩ := h
  cases hbr : d.branchI with
  | false => simp [IdEx.pcSel, pcDecoder, hbr, hj, hjr]
  | true =>
      -- a branch alone: its `PC_SEL` is `pcBranch` or `pcPc4`
      simp only [hbr, Bool.true_and, IdEx.pcSel, hj, hjr, pcDecoder] at hb ⊢
      split at hb <;> simp_all [pcBranch, pcPc4]

/-- An instruction that redirects nothing and loads nothing writes back its ALU result. -/
theorem IdEx.Coherent.alu_of_not_taken {d : IdEx} (hd : d.Coherent) {r1 r2 : Word}
    (h : d.taken r1 r2 = false) (hwe : d.rfWe = true) (hrden : d.memRden = false) :
    d.rfSel = wbAlu := by
  simp only [IdEx.taken, Bool.or_eq_false_iff] at h
  exact hd.alu hwe hrden h.1.1 h.1.2

/-- A redirecting instruction makes `PC_SEL` leave `PC + 4`. -/
theorem IdEx.Coherent.pcSel_of_taken {d : IdEx} (hd : d.Coherent) {r1 r2 : Word}
    (h : d.taken r1 r2 = true) : d.pcSel r1 r2 ≠ pcPc4 := by
  cases hj : d.jalI with
  | true => simp [IdEx.pcSel, pcDecoder, hj, hd.jal hj, pcJal, pcPc4]
  | false =>
      cases hjr : d.jalrI with
      | true => simp [IdEx.pcSel, pcDecoder, hjr, hd.jalr hjr, pcJalr, pcPc4]
      | false =>
          -- no jump, so `taken` is a taken branch
          simp only [IdEx.taken, hj, hjr, Bool.false_or, Bool.and_eq_true, beq_iff_eq] at h
          rw [h.2]
          decide

end Rv32iPipeline
