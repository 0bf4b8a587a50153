import Rv32iPipeline.Proofs.Reset

/-!
# `Rv32iPipeline.Proofs.Fetch`: the front end over any run

`CpuTop.drive` is a run of the core under any inputs: `RST` in any cycle, any `DATA_IN`, and
any resolution of `'X`. `nextFetch_cases`, `nextIfId_cases` and `nextIdEx_cases` list what the
three registers of the front end can take at an edge. Every fact of this module is a case
analysis on them.

* `front_end_paired`: after two edges with `RST` high, each word in the front end travels with
  the address it was fetched at.
* `fetch_aligned_iff`: from a reset on, every PC is a multiple of 4 exactly when every target
  that `PC_SEL` picks is one. `Jump_Branch_Address_Generator` clears bit 0 of the `jalr` target
  only, and a `jal` or branch offset may be 2 modulo 4.
-/

set_option autoImplicit false

namespace Rv32iPipeline

open CpuTop Clocked

/-- The run of the core under any inputs. -/
def CpuTop.drive (imem : InstructionMemory) (s : CpuTop) (inp : ℕ → CpuInput) (n : ℕ) : CpuTop :=
  run (CpuTop.step imem) s inp n

theorem drive_succ (imem : InstructionMemory) (s : CpuTop) (inp : ℕ → CpuInput) (n : ℕ) :
    drive imem s inp (n + 1) = (drive imem s inp n).step imem (inp n) := rfl

/-! ### What the front end can take -/

section
variable (imem : InstructionMemory) (s : CpuTop) (i : CpuInput)

/-- `IMEM` fetches at `PC`, holds, or puts out a zero word. -/
theorem nextFetch_cases (rst : Bool) :
    s.nextFetch imem rst = (imem.at (s.pc rst), s.pc rst) ∨
    s.nextFetch imem rst = (s.ir, s.pcUsed) ∨
    s.nextFetch imem rst = (0#32, s.pcUsed) := by
  unfold nextFetch
  split
  · exact .inl rfl
  · split
    · exact .inr (.inl rfl)
    · split
      · exact .inr (.inr rfl)
      · exact .inl rfl

/-- IF/ID is cleared, holds, or takes the output of `IMEM`. -/
theorem nextIfId_cases (rst : Bool) :
    s.nextIfId rst = IfId.zero ∨ s.nextIfId rst = s.ifIdQ ∨
    s.nextIfId rst = ifIdD s.pcUsed s.ir := by
  unfold nextIfId
  split
  · exact .inl rfl
  · split
    · exact .inr (.inl rfl)
    · exact .inr (.inr rfl)

/-- ID/EX is cleared, holds with new operands, or takes the decoded IF/ID. -/
theorem nextIdEx_cases :
    s.nextIdEx i = IdEx.zero ∨
    s.nextIdEx i = { s.idExQ with rs1 := s.realRs1, rs2 := s.realRs2 } ∨
    s.nextIdEx i = idExD s.ifIdQ s.registers i.x := by
  unfold nextIdEx
  split
  · exact .inl rfl
  · split
    · exact .inr (.inl rfl)
    · exact .inr (.inr rfl)

end

/-! ### Words and their addresses -/

/-- `ir` is the word at `pc`, or the zero word. -/
def InstructionMemory.Holds (imem : InstructionMemory) (pc ir : Word) : Prop :=
  ir = 0#32 ∨ ir = imem.at pc

/-- The instruction has the register numbers, `func3` and the immediates of `w`. -/
structure IdEx.Carries (d : IdEx) (w : Word) : Prop where
  regWriteAddr : d.regWriteAddr = rdOf w
  rs1Addr : d.rs1Addr = rs1Of w
  rs2Addr : d.rs2Addr = rs2Of w
  func3 : d.func3 = funct3Of w
  immediates : (⟨d.uType, d.iType, d.sType, d.bType, d.jType⟩ : Immediates)
    = immediateGenerator (w.extractLsb' 7 25)

/-- Every word in the front end is one of its address, or zero. -/
structure CpuTop.Paired (imem : InstructionMemory) (s : CpuTop) : Prop where
  fetch : imem.Holds s.pcUsed s.ir
  ifId : imem.Holds s.ifIdQ.pc s.ifIdQ.ir
  idEx : s.idExQ = IdEx.zero ∨ ∃ w, imem.Holds s.idExQ.pc w ∧ s.idExQ.Carries w

/-- The number of the first `n` edges with `RST` high. -/
def resetEdges (inp : ℕ → CpuInput) : ℕ → ℕ
  | 0 => 0
  | n + 1 => resetEdges inp n + (inp n).rst.toNat

section
variable {imem : InstructionMemory} {s : CpuTop}

/-- The decoder keeps the fields of its word. -/
theorem idExD_carries (q : IfId) (regs : Registers) (x : DontCare) :
    (idExD q regs x).Carries q.ir :=
  ⟨rfl, rfl, rfl, rfl, rfl⟩

/-- The operands do not belong to the word. -/
theorem IdEx.Carries.withOperands {d : IdEx} {w : Word} (h : d.Carries w) (v1 v2 : Word) :
    { d with rs1 := v1, rs2 := v2 }.Carries w :=
  ⟨h.regWriteAddr, h.rs1Addr, h.rs2Addr, h.func3, h.immediates⟩

/-- An edge with `RST` high clears the pipeline registers, under any resolution. -/
theorem cleared_step_of_rst (imem : InstructionMemory) (s : CpuTop) {i : CpuInput}
    (h : i.rst = true) : (s.step imem i).Cleared := by
  obtain ⟨rst, d, x⟩ := i
  obtain rfl : rst = true := h
  rw [step_reset]
  exact ⟨rfl, rfl, rfl, rfl⟩

/-- A pair in the output register of `IMEM` is followed by a pair. -/
theorem holds_nextFetch (h : imem.Holds s.pcUsed s.ir) (rst : Bool) :
    imem.Holds (s.nextFetch imem rst).2 (s.nextFetch imem rst).1 := by
  rcases nextFetch_cases imem s rst with hc | hc | hc
  · rw [hc]
    exact .inr rfl
  · rw [hc]
    exact h
  · rw [hc]
    exact .inl rfl

/-- Behind a cleared pipeline nothing holds `IMEM`, so its output is a pair after the edge
whatever it was before. -/
theorem CpuTop.Cleared.holds_nextFetch (h : s.Cleared) (imem : InstructionMemory) (rst : Bool) :
    imem.Holds (s.nextFetch imem rst).2 (s.nextFetch imem rst).1 := by
  rw [h.nextFetch_eq]
  split
  · exact .inl rfl
  · exact .inr rfl

/-- A cleared pipeline with a pair in `IMEM` is paired. -/
theorem CpuTop.Cleared.paired (h : s.Cleared) (hf : imem.Holds s.pcUsed s.ir) :
    s.Paired imem where
  fetch := hf
  ifId := by
    rw [h.ifId]
    exact .inl rfl
  idEx := .inl h.idEx

/-- Every edge keeps the pairs. -/
theorem CpuTop.Paired.step (h : s.Paired imem) (i : CpuInput) : (s.step imem i).Paired imem where
  fetch := holds_nextFetch h.fetch i.rst
  ifId := by
    show imem.Holds (s.nextIfId i.rst).pc (s.nextIfId i.rst).ir
    rcases nextIfId_cases s i.rst with hc | hc | hc
    · rw [hc]
      exact .inl rfl
    · rw [hc]
      exact h.ifId
    · rw [hc]
      exact h.fetch
  idEx := by
    show s.nextIdEx i = IdEx.zero ∨ ∃ w, imem.Holds (s.nextIdEx i).pc w ∧ (s.nextIdEx i).Carries w
    rcases nextIdEx_cases s i with hc | hc | hc
    · exact .inl hc
    · rw [hc]
      -- a stalled slot keeps its fields, and an empty one has those of the zero word
      rcases h.idEx with hz | ⟨w, hw, hcarries⟩
      · have hcarries : IdEx.zero.Carries 0#32 := ⟨rfl, rfl, rfl, rfl, rfl⟩
        rw [hz]
        exact .inr ⟨0#32, .inl rfl, hcarries.withOperands _ _⟩
      · exact .inr ⟨w, hw, hcarries.withOperands _ _⟩
    · rw [hc]
      exact .inr ⟨s.ifIdQ.ir, h.ifId, idExD_carries _ _ _⟩

end

/-- After one edge with `RST` high the pipeline has just been cleared, or `IMEM` puts out a
pair. After two of them, every word in the front end is a pair. -/
theorem paired_drive (imem : InstructionMemory) (s : CpuTop) (inp : ℕ → CpuInput) (n : ℕ) :
    (1 ≤ resetEdges inp n → (drive imem s inp n).Cleared ∨
      imem.Holds (drive imem s inp n).pcUsed (drive imem s inp n).ir) ∧
    (2 ≤ resetEdges inp n → (drive imem s inp n).Paired imem) := by
  -- induction on the run: each edge with `RST` high moves to the next stage
  induction n with
  | zero =>
      exact ⟨fun h => absurd h (Nat.not_succ_le_zero 0), fun h => absurd h (Nat.not_succ_le_zero 1)⟩
  | succ n ih =>
      obtain ⟨ih1, ih2⟩ := ih
      have hfetch : 1 ≤ resetEdges inp n →
          imem.Holds (drive imem s inp (n + 1)).pcUsed (drive imem s inp (n + 1)).ir := by
        intro h
        rcases ih1 h with hclear | hpair
        · exact hclear.holds_nextFetch imem (inp n).rst
        · exact holds_nextFetch hpair (inp n).rst
      rw [resetEdges]
      cases hrst : (inp n).rst with
      | true =>
          have hclear := cleared_step_of_rst imem (drive imem s inp n) hrst
          refine ⟨fun _ => .inl hclear, fun h => hclear.paired (hfetch ?_)⟩
          rw [Bool.toNat_true] at h
          omega
      | false =>
          rw [Bool.toNat_false, Nat.add_zero]
          exact ⟨fun h => .inr (hfetch h), fun h => (ih2 h).step (inp n)⟩

/-- **PC and word stay paired.** From any state and under any inputs, once two edges have had
`RST` high: the output of `IMEM` and IF/ID hold zero or the word at their PC, and ID/EX is empty
or carries the fields of zero or of the word at its PC. -/
theorem front_end_paired (imem : InstructionMemory) (s : CpuTop) (inp : ℕ → CpuInput) {n : ℕ}
    (h : 2 ≤ resetEdges inp n) : (drive imem s inp n).Paired imem :=
  (paired_drive imem s inp n).2 h

/-- `lw x1, 0(x0)`, `addi x2, x1, 1` and then `jal x0, -8`. `RST` is high for two edges, and once
more in the load-use stall: three edges later the word that the stall has kept is in EX, with its
own PC. -/
theorem front_end_paired_stall :
    let imem : InstructionMemory := fun a =>
      if a = 0#13 then 0x00002083#32 else if a = 1#13 then 0x00108113#32 else 0xFF9FF06F#32
    let inp : ℕ → CpuInput := fun k => ⟨decide (k < 2 ∨ k = 5), 0#32, DontCare.zero⟩
    let core := drive imem (outOfReset imem fun _ => 0#32) inp
    (core 5).stall = true ∧ (core 8).idExQ.pc = 12#32 ∧ (core 8).idExQ.jalI = true ∧
      (core 8).Paired imem := by
  intro imem inp core
  exact ⟨by decide +kernel, by decide +kernel, by decide +kernel,
    front_end_paired imem _ inp (by decide)⟩

/-! ### Alignment -/

/-- A multiple of 4. -/
def WordAligned (a : Word) : Prop := a.toNat % 4 = 0

instance (a : Word) : Decidable (WordAligned a) := inferInstanceAs (Decidable (a.toNat % 4 = 0))

/-- The `PC` pin and every PC that the front end carries are multiples of 4. -/
structure CpuTop.Aligned (s : CpuTop) (rst : Bool) : Prop where
  pc : WordAligned (s.pc rst)
  pcUsed : WordAligned s.pcUsed
  ifId : WordAligned s.ifIdQ.pc
  idEx : WordAligned s.idExQ.pc

/-- The offset of the target that `PC_SEL` picks is a multiple of 4. For a `jalr`, bit 1 of the
sum with the base is clear. -/
structure CpuTop.TargetAligned (s : CpuTop) : Prop where
  jal : s.pcSel = pcJal → WordAligned s.idExQ.jType
  branch : s.pcSel = pcBranch → WordAligned s.idExQ.bType
  jalr : s.pcSel = pcJalr → (s.idExQ.iType + s.realRs1).getLsbD 1 = false

instance (s : CpuTop) : Decidable s.TargetAligned :=
  decidable_of_iff ((s.pcSel = pcJal → WordAligned s.idExQ.jType) ∧
      (s.pcSel = pcBranch → WordAligned s.idExQ.bType) ∧
      (s.pcSel = pcJalr → (s.idExQ.iType + s.realRs1).getLsbD 1 = false))
    ⟨fun h => ⟨h.1, h.2.1, h.2.2⟩, fun h => ⟨h.jal, h.branch, h.jalr⟩⟩

section
variable {imem : InstructionMemory} {s : CpuTop}

/-- A sum with a multiple of 4. -/
theorem WordAligned.add_iff {a : Word} (h : WordAligned a) (b : Word) :
    WordAligned (a + b) ↔ WordAligned b := by
  unfold WordAligned at h ⊢
  rw [BitVec.toNat_add]
  omega

/-- With bit 0 cleared, bit 1 decides. -/
theorem wordAligned_and_iff (a : Word) :
    WordAligned (a &&& 0xFFFFFFFE#32) ↔ a.getLsbD 1 = false := by
  have hmod : (a &&& 0xFFFFFFFE#32).toNat % 2 ^ 2 = a.toNat % 2 ^ 2 &&& 2 := by
    rw [BitVec.toNat_and, Nat.and_mod_two_pow]
    rfl
  have hbit : a.getLsbD 1 = (a.toNat % 2 ^ 2).testBit 1 := by
    rw [Nat.testBit_mod_two_pow]
    rfl
  have hlt : a.toNat % 2 ^ 2 < 2 ^ 2 := Nat.mod_lt _ (by decide)
  unfold WordAligned
  rw [show (4 : ℕ) = 2 ^ 2 from rfl, hmod, hbit]
  generalize a.toNat % 2 ^ 2 = r at hlt
  revert r
  decide

/-- `PC` is aligned exactly when the picked target is, if the PCs before it are. -/
theorem pc_aligned_iff (hused : WordAligned s.pcUsed) (hex : WordAligned s.idExQ.pc) :
    WordAligned (s.pc false) ↔ s.TargetAligned := by
  rcases sel_cases s.pcSel with hsel | hsel | hsel | hsel
  -- in sequence, `jalr`, branch, `jal`
  · have hpc : s.pc false = s.pcUsed + 4#32 := by rw [CpuTop.pc, hsel]; rfl
    rw [hpc, hused.add_iff]
    refine iff_of_true rfl ⟨?_, ?_, ?_⟩
    all_goals
      intro hc
      rw [hsel] at hc
      exact absurd hc (by decide)
  · have hpc : s.pc false = (s.idExQ.iType + s.realRs1) &&& 0xFFFFFFFE#32 := by
      rw [CpuTop.pc, hsel]; rfl
    rw [hpc, wordAligned_and_iff]
    refine ⟨fun h => ⟨fun hc => ?_, fun hc => ?_, fun _ => h⟩, fun h => h.jalr hsel⟩
    all_goals
      rw [hsel] at hc
      exact absurd hc (by decide)
  · have hpc : s.pc false = s.idExQ.pc + s.idExQ.bType := by rw [CpuTop.pc, hsel]; rfl
    rw [hpc, hex.add_iff]
    refine ⟨fun h => ⟨fun hc => ?_, fun _ => h, fun hc => ?_⟩, fun h => h.branch hsel⟩
    all_goals
      rw [hsel] at hc
      exact absurd hc (by decide)
  · have hpc : s.pc false = s.idExQ.pc + s.idExQ.jType := by rw [CpuTop.pc, hsel]; rfl
    rw [hpc, hex.add_iff]
    refine ⟨fun h => ⟨fun _ => h, fun hc => ?_, fun hc => ?_⟩, fun h => h.jal hsel⟩
    all_goals
      rw [hsel] at hc
      exact absurd hc (by decide)

/-- A cycle with `RST` low has every PC aligned exactly when its target is, if the registers of
the front end are aligned. -/
theorem aligned_iff {rst : Bool} (hused : WordAligned s.pcUsed) (hif : WordAligned s.ifIdQ.pc)
    (hex : WordAligned s.idExQ.pc) : s.Aligned rst ↔ (rst = false → s.TargetAligned) := by
  cases rst with
  | true =>
      refine iff_of_true ⟨?_, hused, hif, hex⟩ fun hc => absurd hc.symm Bool.false_ne_true
      exact Nat.zero_mod 4
  | false =>
      rw [← pc_aligned_iff hused hex]
      exact ⟨fun h _ => h.pc, fun h => ⟨h rfl, hused, hif, hex⟩⟩

/-- The registers of the front end take no other PC. -/
theorem CpuTop.Aligned.step {i : CpuInput} (h : s.Aligned i.rst) (imem : InstructionMemory) :
    WordAligned (s.step imem i).pcUsed ∧ WordAligned (s.step imem i).ifIdQ.pc ∧
      WordAligned (s.step imem i).idExQ.pc := by
  refine ⟨?_, ?_, ?_⟩
  · show WordAligned (s.nextFetch imem i.rst).2
    rcases nextFetch_cases imem s i.rst with hc | hc | hc
    · rw [hc]
      exact h.pc
    all_goals
      rw [hc]
      exact h.pcUsed
  · show WordAligned (s.nextIfId i.rst).pc
    rcases nextIfId_cases s i.rst with hc | hc | hc
    · rw [hc]
      exact Nat.zero_mod 4
    · rw [hc]
      exact h.ifId
    · rw [hc]
      exact h.pcUsed
  · show WordAligned (s.nextIdEx i).pc
    rcases nextIdEx_cases s i with hc | hc | hc
    · rw [hc]
      exact Nat.zero_mod 4
    · rw [hc]
      exact h.idEx
    · rw [hc]
      exact h.ifId

/-- Two edges with `RST` high reset the core, without `halt_sig` and under any resolution. -/
theorem CpuTop.step_reset_twice (imem : InstructionMemory) (hh : s.haltSig = false) (d d' : Word)
    (x x' : DontCare) : (s.step imem ⟨true, d, x⟩).step imem ⟨true, d', x'⟩
      = outOfReset imem (s.nextRegisters d x) := by
  have hclear : (s.step imem ⟨true, d, x⟩).Cleared := cleared_step_of_rst imem s rfl
  have hhalt : (s.step imem ⟨true, d, x⟩).haltSig = false := hh
  rw [step_reset, hclear.nextFetch_eq, hhalt, hclear.nextRegisters_eq]
  rfl

end

/-- **When fetch is aligned.** `RST` has been high for two edges, without `halt_sig`, and any
inputs follow. The PC pin and every PC in the front end are multiples of 4 in every cycle exactly
when, in every cycle with `RST` low, the target that `PC_SEL` picks is aligned. -/
theorem fetch_aligned_iff (imem : InstructionMemory) {s : CpuTop} (hh : s.haltSig = false)
    (d d' : Word) (x x' : DontCare) (inp : ℕ → CpuInput) :
    let core := drive imem ((s.step imem ⟨true, d, x⟩).step imem ⟨true, d', x'⟩) inp
    (∀ n, (core n).Aligned (inp n).rst) ↔ ∀ n, (inp n).rst = false → (core n).TargetAligned := by
  rw [step_reset_twice imem hh]
  intro core
  constructor
  · intro h n
    exact (aligned_iff (h n).pcUsed (h n).ifId (h n).idEx).mp (h n)
  · intro h n
    -- induction on the run: the registers of the front end stay aligned
    have hregs : WordAligned (core n).pcUsed ∧ WordAligned (core n).ifIdQ.pc ∧
        WordAligned (core n).idExQ.pc := by
      induction n with
      | zero => exact ⟨Nat.zero_mod 4, Nat.zero_mod 4, Nat.zero_mod 4⟩
      | succ n ih => exact ((aligned_iff ih.1 ih.2.1 ih.2.2).mpr (h n)).step imem
    exact (aligned_iff hregs.1 hregs.2.1 hregs.2.2).mpr (h n)

/-- A loop of a taken `beq x0, x0, 8`, a `jal x0, 4` and a `jalr x0, 0(x0)`, from an empty pipeline:
every PC is aligned for ever. -/
theorem fetch_aligned_iff_loop :
    let imem : InstructionMemory := fun a =>
      if a = 0#13 then 0x00000463#32 else if a = 2#13 then 0x0040006F#32
      else if a = 3#13 then 0x00000067#32 else 0x00000013#32
    let i : CpuInput := CpuInput.reset 0#32
    let core := drive imem (((outOfReset imem fun _ => 0#32).step imem i).step imem i)
      fun _ => CpuInput.run 0#32
    ((core 2).pcSel = pcBranch ∧ (core 5).pcSel = pcJal ∧ (core 8).pcSel = pcJalr) ∧
      ∀ n, (core n).Aligned false := by
  intro imem i core
  refine ⟨by decide +kernel, (fetch_aligned_iff imem rfl 0#32 0#32 DontCare.zero DontCare.zero
    fun _ => CpuInput.run 0#32).mpr fun n _ => ?_⟩
  -- behind the third transfer the core comes back to where it was
  have hloop : core (5 + 9) = core 5 := by
    have hregs : ∀ r, (core (5 + 9)).registers r = (core 5).registers r := by decide +kernel
    refine CpuTop.ext ?_ ?_ ?_ ?_ ?_ ?_ ?_ (funext hregs)
    all_goals decide +kernel
  obtain ⟨m, hm, hcore⟩ := exists_run_eq_of_loop (by decide : 0 < 9) hloop n
  have hall : ∀ m < 5 + 9, (core m).TargetAligned := by decide +kernel
  exact (congrArg CpuTop.TargetAligned hcore).mpr (hall m hm)

/-- `jal x0, 2` everywhere: the first jump makes `PC` 2. -/
theorem fetch_misaligned :
    ¬ ∀ (imem : InstructionMemory) (s : CpuTop) (d d' : Word) (x x' : DontCare)
      (inp : ℕ → CpuInput), (∀ pc, isImplemented (imem.at pc) = true) → s.haltSig = false → ∀ n,
      (drive imem ((s.step imem ⟨true, d, x⟩).step imem ⟨true, d', x'⟩) inp n).Aligned
        (inp n).rst := by
  intro hall
  let imem : InstructionMemory := fun _ => 0x0020006F#32
  have himpl : isImplemented 0x0020006F#32 = true := by decide
  have hpc := (hall imem (outOfReset imem fun _ => 0#32) 0#32 0#32 DontCare.zero DontCare.zero
    (fun _ => CpuInput.run 0#32) (fun _ => himpl) rfl 2).pc
  have htwo : (drive imem (((outOfReset imem fun _ => 0#32).step imem
      ⟨true, 0#32, DontCare.zero⟩).step imem ⟨true, 0#32, DontCare.zero⟩)
      (fun _ => CpuInput.run 0#32) 2).pc false = 2#32 := by decide +kernel
  rw [show (CpuInput.run 0#32).rst = false from rfl, htwo] at hpc
  exact absurd hpc (by decide)

end Rv32iPipeline
