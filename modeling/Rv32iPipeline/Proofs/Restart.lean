import Rv32iPipeline.Proofs.Halt

/-!
# `Rv32iPipeline.Proofs.Restart`: does a reset restart the core cleanly?

`reset_ends_halt_iff`: two or more edges with `RST` high end a halt exactly when there was
none. The reset branch of `halt_sig` does not assign it, so a halted core stays halted.

`restart_clean_iff`: from a state without a halt or a trap, `k` edges with `RST` high restart
the core at address 0 exactly when `k` is at least two, or no load-use stall is raised in the
cycle of the edge, or the word the stall keeps in the `IMEM` register is by chance word 0 and
writes nothing. With one edge in a stall the word of the interrupted program survives.

`Stale` marks the slots that hold an instruction fetched before the reset. It follows the
pipeline registers and never feeds back into them.
-/

set_option autoImplicit false

namespace Rv32iPipeline

open CpuTop Clocked

/-! ### Halt -/

/-- Two cores that fetch, write and halt alike for ever, under the same `DATA_IN`. -/
def SameRun (imem : InstructionMemory) (s s' : CpuTop) : Prop :=
  ∀ (din : ℕ → Word) (c : ℕ),
    (runFrom imem s din c).pcUsed = (runFrom imem s' din c).pcUsed ∧
    (runFrom imem s din c).ir = (runFrom imem s' din c).ir ∧
    (runFrom imem s din c).regWrite (din c) DontCare.zero
      = (runFrom imem s' din c).regWrite (din c) DontCare.zero ∧
    (runFrom imem s din c).bus.write = (runFrom imem s' din c).bus.write ∧
    (runFrom imem s din c).haltSig = (runFrom imem s' din c).haltSig

/-- **A reset ends no halt.** After two or more edges with `RST` high the core runs as one that
never trapped, exactly when `halt_sig` was low at the first of them. -/
theorem reset_ends_halt_iff (imem : InstructionMemory) (s : CpuTop) (rin : ℕ → Word) {k : ℕ}
    (hk : 2 ≤ k) :
    SameRun imem (holdReset imem s rin k)
        (outOfReset imem (holdReset imem s rin k).registers) ↔ s.haltSig = false := by
  constructor
  · intro hsame
    -- the two runs differ in `halt_sig` at once
    have hhalt := (hsame (fun _ => 0#32) 0).2.2.2.2
    exact (haltSig_holdReset imem s rin k).symm.trans hhalt
  · intro hh
    have hreset : outOfReset imem (holdReset imem s rin k).registers = holdReset imem s rin k := by
      rw [holdReset_outOfReset imem hh rin hk]
      rfl
    rw [hreset]
    exact fun _ _ => ⟨rfl, rfl, rfl, rfl, rfl⟩

/-- `ecall` everywhere: three cycles after its reset the first trap is in MEM and the core is not
halted yet. Two further edges with `RST` high end the trap. -/
theorem reset_ends_halt_iff_trap :
    let imem : InstructionMemory := fun _ => 0x00000073#32
    let s := runFrom imem ((outOfReset imem fun _ => 0#32).step imem (CpuInput.reset 0#32))
      (fun _ => 0#32) 3
    let s' := holdReset imem s (fun _ => 0#32) 2
    s.exMemQ.trap = true ∧ SameRun imem s' (outOfReset imem s'.registers) := by
  intro imem s s'
  exact ⟨by decide +kernel,
    (reset_ends_halt_iff imem s (fun _ => 0#32) (by decide : 2 ≤ 2)).mpr (by decide +kernel)⟩

/-- `ecall` everywhere: six cycles after its reset the core is halted, and two further edges with
`RST` high leave it so. -/
theorem reset_keeps_halt :
    ¬ ∀ (imem : InstructionMemory) (s : CpuTop), CpuTop.Reachable imem s →
      (s.haltSig = true ∨ s.idExQ.trap = true ∨ s.exMemQ.trap = true ∨ s.memWbQ.trap = true) →
      ∀ (rin : ℕ → Word) (k : ℕ), 2 ≤ k →
        SameRun imem (holdReset imem s rin k)
          (outOfReset imem (holdReset imem s rin k).registers) := by
  intro hall
  let imem : InstructionMemory := fun _ => 0x00000073#32
  let s := runFrom imem ((outOfReset imem fun _ => 0#32).step imem (CpuInput.reset 0#32))
    (fun _ => 0#32) 6
  have hreach : CpuTop.Reachable imem s :=
    @runFrom_invariant (CpuTop.Reachable imem) imem _ (.reset _ _) (fun _ d h => h.step false d)
      (fun _ => 0#32) 6
  have hhalt : s.haltSig = true := by decide +kernel
  have hsame := hall imem s hreach (.inl hhalt) (fun _ => 0#32) 2 (by decide) (fun _ => 0#32) 0
  have hlow : (holdReset imem s (fun _ => 0#32) 2).haltSig = false := hsame.2.2.2.2
  rw [haltSig_holdReset, hhalt] at hlow
  exact Bool.noConfusion hlow

/-! ### The slots of the interrupted program -/

/-- Which slots hold an instruction that was fetched before the reset. -/
structure Stale where
  ir : Bool
  ifId : Bool
  idEx : Bool
  exMem : Bool

/-- Before the reset every slot may. -/
def Stale.all : Stale := ⟨true, true, true, true⟩

/-- No slot does. -/
def Stale.none : Stale := ⟨false, false, false, false⟩

/-- The marks move with the pipeline registers of `s`. A fetch brings in an unmarked word. -/
def Stale.step (s : CpuTop) (rst : Bool) (t : Stale) : Stale where
  ir := s.forwarding.stallIfId && t.ir
  ifId := !(rst || s.hazard.flushIfId) && if s.forwarding.stallIfId then t.ifId else t.ir
  idEx := !(rst || s.hazard.flushIdEx) && if s.forwarding.stallIdEx then t.idEx else t.ifId
  exMem := !(rst || s.forwarding.flushExMem) && t.idEx

/-- `RST` is high for `k` edges and then low. -/
def resetInput (k : ℕ) (din : ℕ → Word) (j : ℕ) : CpuInput := ⟨decide (j < k), din j, DontCare.zero⟩

/-- The core and the marks, from the first edge of the reset on. -/
def resetRun (imem : InstructionMemory) (s : CpuTop) (k : ℕ) (din : ℕ → Word) (j : ℕ) :
    CpuTop × Stale :=
  run (fun st i => (st.1.step imem i, st.2.step st.1 i.rst)) (s, Stale.all) (resetInput k din) j

/-- The restart at address 0, and the silence of the interrupted program. `k` is the number of
edges with `RST` high. -/
structure CleanRestart (imem : InstructionMemory) (s : CpuTop) (k : ℕ) (din : ℕ → Word) :
    Prop where
  /-- EX is empty in the first two cycles, and then word 0 enters it from IF/ID. -/
  empty : ∀ c < 2, (resetRun imem s k din (k + c)).1.idExQ = IdEx.zero
  first : (resetRun imem s k din (k + 1)).1.ifIdQ = ifIdD 0#32 (imem.at 0#32)
  /-- The instructions of the sequential path from address 0 complete EX in their order, and EX
  holds nothing else before. -/
  follow : ∀ n,
    let regs := (resetRun imem s k din k).1.registers
    let path := execution imem regs fun c => din (k + c)
    NoTrapBefore imem regs (fun c => din (k + c)) n →
      (resetRun imem s k din (k + (path n).due)).1.InEx ((path n).state.decoded imem) ∧
      (resetRun imem s k din (k + (path n).due)).1.stall = false ∧
      ∀ c ≤ (path n).due, (resetRun imem s k din (k + c)).1.idExQ = IdEx.zero ∨
        ∃ m ≤ n, (resetRun imem s k din (k + c)).1.InEx ((path m).state.decoded imem)
  /-- No instruction fetched before the reset writes after its first edge. -/
  silent : ∀ j ≥ 1,
    ((resetRun imem s k din j).2.exMem = true →
      (resetRun imem s k din j).1.regWrite (din j) DontCare.zero = []) ∧
    ((resetRun imem s k din j).2.idEx = true → (resetRun imem s k din j).1.bus.iobusWe = false)

section
variable {imem : InstructionMemory} {s : CpuTop} {k : ℕ} {din : ℕ → Word}

/-- During the reset the core of the run is `holdReset`. -/
theorem resetRun_hold {j : ℕ} (hj : j ≤ k) :
    (resetRun imem s k din j).1 = holdReset imem s din j := by
  induction j with
  | zero => rfl
  | succ j ih =>
      show (resetRun imem s k din j).1.step imem (resetInput k din j) = _
      have hrst : resetInput k din j = CpuInput.reset (din j) := by
        simp [resetInput, CpuInput.reset, Nat.lt_of_succ_le hj]
      rw [ih (Nat.le_of_succ_le hj), hrst, holdReset_succ]

/-- After the reset it is a run with `RST` low. -/
theorem resetRun_add (c : ℕ) :
    (resetRun imem s k din (k + c)).1
      = runFrom imem (resetRun imem s k din k).1 (fun c => din (k + c)) c := by
  induction c with
  | zero => rfl
  | succ c ih =>
      show (resetRun imem s k din (k + c)).1.step imem (resetInput k din (k + c)) = _
      have hrst : resetInput k din (k + c) = CpuInput.run (din (k + c)) := by
        simp [resetInput, CpuInput.run]
      rw [ih, hrst]
      rfl

/-- The marks of the next cycle. -/
theorem resetRun_stale (j : ℕ) :
    (resetRun imem s k din (j + 1)).2
      = (resetRun imem s k din j).2.step (resetRun imem s k din j).1 (decide (j < k)) := rfl

/-- The first edge leaves a mark on the `IMEM` register only, and only in a stall. -/
theorem resetRun_stale_one (hk : 1 ≤ k) :
    (resetRun imem s k din 1).2 = ⟨s.stall, false, false, false⟩ := by
  rw [resetRun_stale, decide_eq_true (Nat.lt_of_succ_le hk)]
  simp [resetRun, Stale.all, Stale.step, stallIfId_eq]

/-- Without marks there will be none. -/
theorem Stale.step_none (s : CpuTop) (rst : Bool) : Stale.none.step s rst = Stale.none := by
  simp [Stale.none, Stale.step]

theorem resetRun_stale_none {j j' : ℕ} (hj : j ≤ j') (h : (resetRun imem s k din j).2 = .none) :
    (resetRun imem s k din j').2 = .none := by
  induction hj with
  | refl => exact h
  | step _ ih => rw [resetRun_stale, ih, Stale.step_none]

/-- Without a mark on EX and on EX/MEM the interrupted program writes nothing. -/
theorem silent_of_unmarked {j : ℕ} {ir ifId : Bool}
    (h : (resetRun imem s k din j).2 = ⟨ir, ifId, false, false⟩) :
    ((resetRun imem s k din j).2.exMem = true →
        (resetRun imem s k din j).1.regWrite (din j) DontCare.zero = []) ∧
      ((resetRun imem s k din j).2.idEx = true →
        (resetRun imem s k din j).1.bus.iobusWe = false) := by
  rw [h]
  exact ⟨fun hc => absurd hc Bool.false_ne_true, fun hc => absurd hc Bool.false_ne_true⟩

/-- Behind an empty EX slot the marks move on by one slot, with `RST` low. -/
theorem Stale.step_of_idEx_zero (hid : s.idExQ = IdEx.zero) (t : Stale) :
    t.step s false = ⟨false, t.ir, t.ifId, t.idEx⟩ := by
  simp [Stale.step, stallIfId_eq, stallIdEx_eq, flushExMem_eq, stall_of_idEx_zero hid, hazard_eq,
    flush_of_idEx_zero hid]

/-- A second edge clears the mark on the `IMEM` register. -/
theorem resetRun_stale_two (hk : 2 ≤ k) : (resetRun imem s k din 2).2 = .none := by
  have hclr : (resetRun imem s k din 1).1.Cleared := by
    rw [resetRun_hold (Nat.le_of_succ_le hk)]
    exact cleared_holdReset imem s din 0
  -- behind the cleared pipeline nothing stalls, so `IMEM` fetches
  rw [resetRun_stale, resetRun_stale_one (Nat.le_of_succ_le hk),
    decide_eq_true (Nat.lt_of_succ_le hk)]
  simp [Stale.step, Stale.none, stallIfId_eq, stall_of_idEx_zero hclr.idEx]

/-! ### The restart -/

/-- From `outOfReset` the core restarts at address 0. What is left is the silence of the
interrupted program. -/
theorem cleanRestart_of_outOfReset {regs : Registers}
    (hcore : (resetRun imem s k din k).1 = outOfReset imem regs)
    (hsilent : ∀ j ≥ 1,
      ((resetRun imem s k din j).2.exMem = true →
        (resetRun imem s k din j).1.regWrite (din j) DontCare.zero = []) ∧
      ((resetRun imem s k din j).2.idEx = true →
        (resetRun imem s k din j).1.bus.iobusWe = false)) :
    CleanRestart imem s k din := by
  have hrun : ∀ c, (resetRun imem s k din (k + c)).1
      = runFrom imem (outOfReset imem regs) (fun c => din (k + c)) c := fun c => by
    rw [resetRun_add, hcore]
  have hdec := (sim_outOfReset imem regs (din k)).refill (din (k + 1))
  refine ⟨fun c hc => ?_, ?_, ?_, hsilent⟩
  · rw [hrun]
    match c, hc with
    | 0, _ => rfl
    | 1, _ => exact hdec.front.1
  · rw [hrun]
    exact hdec.front.2.1
  · rw [hcore]
    intro n regs' path hn
    refine ⟨?_, ?_, fun c hc => ?_⟩
    · rw [hrun]
      exact hn.due.execute.1.inEx rfl
    · rw [hrun]
      exact hn.due.execute.2
    · rw [hrun]
      exact occupant_execution imem regs _ hn.decoded hc

/-- The instruction at address 0 completes EX three cycles after a single edge. -/
theorem due_of_one {regs : Registers} (hcore : (resetRun imem s 1 din 1).1 = outOfReset imem regs) :
    Due imem (resetRun imem s 1 din 3).1 (din 3) ⟨0#32, regs⟩ 0 := by
  have h1 := (core_refines imem).wait (due_outOfReset imem regs (din 1)) (din 2)
  have h2 := (core_refines imem).wait h1 (din 3)
  have hrun : (resetRun imem s 1 din (1 + 2)).1
      = runFrom imem (resetRun imem s 1 din 1).1 (fun c => din (1 + c)) 2 := resetRun_add 2
  rw [hcore] at hrun
  rw [show (3 : ℕ) = 1 + 2 from rfl, hrun]
  exact h2

/-! ### The word that survives a single edge -/

section
variable {regs : Registers} (hcore : (resetRun imem s 1 din 1).1 = outOfReset imem regs)
  (hs : s.stall = true)
include hcore hs

/-- The mark of the surviving word moves through the pipeline, one slot a cycle. -/
theorem stale_of_one :
    (resetRun imem s 1 din 1).2 = ⟨true, false, false, false⟩ ∧
      (resetRun imem s 1 din 2).2 = ⟨false, true, false, false⟩ ∧
      (resetRun imem s 1 din 3).2 = ⟨false, false, true, false⟩ ∧
      (resetRun imem s 1 din 4).2 = ⟨false, false, false, true⟩ ∧
      (resetRun imem s 1 din 5).2 = .none := by
  have hdue := due_of_one hcore
  have hid1 : (resetRun imem s 1 din 1).1.idExQ = IdEx.zero := by rw [hcore]; rfl
  have hid2 : (resetRun imem s 1 din 2).1.idExQ = IdEx.zero := by
    have hdec := ((sim_outOfReset imem regs (din 1)).refill (din 2)).front.1
    rw [← hcore] at hdec
    exact hdec
  have h1 : (resetRun imem s 1 din 1).2 = ⟨s.stall, false, false, false⟩ :=
    resetRun_stale_one (Nat.le_refl 1)
  rw [hs] at h1
  have h2 : (resetRun imem s 1 din 2).2 = ⟨false, true, false, false⟩ := by
    rw [resetRun_stale, h1]
    exact Stale.step_of_idEx_zero hid1 _
  have h3 : (resetRun imem s 1 din 3).2 = ⟨false, false, true, false⟩ := by
    rw [resetRun_stale, h2]
    exact Stale.step_of_idEx_zero hid2 _
  have h4 : (resetRun imem s 1 din 4).2 = ⟨false, false, false, true⟩ := by
    rw [resetRun_stale, h3]
    simp [Stale.step, stallIdEx_eq, flushExMem_eq, hdue.execute.2]
  refine ⟨h1, h2, h3, h4, ?_⟩
  rw [resetRun_stale, h4]
  simp [Stale.step, Stale.none]

/-- The surviving word is silent exactly when it writes nothing. -/
theorem silent_of_one :
    (∀ j ≥ 1,
      ((resetRun imem s 1 din j).2.exMem = true →
        (resetRun imem s 1 din j).1.regWrite (din j) DontCare.zero = []) ∧
      ((resetRun imem s 1 din j).2.idEx = true →
        (resetRun imem s 1 din j).1.bus.iobusWe = false))
      ↔ writesNothing (imem.at 0#32) = true := by
  obtain ⟨h1, h2, h3, h4, h5⟩ := stale_of_one hcore hs
  have hdue := due_of_one hcore
  have hbus : (resetRun imem s 1 din 3).1.bus.iobusWe
      = ((⟨0#32, regs⟩ : Arch).decoded imem).memWe := hdue.bus_commit.1
  have hreg : (resetRun imem s 1 din 4).1.regWrite (din 4) DontCare.zero
      = (⟨0#32, regs⟩ : Arch).regWrite imem (din 4) := hdue.regWrite_commit (din 4)
  have hwrites := writesNothing_iff imem ⟨0#32, regs⟩ (din 4)
  rw [hwrites, ← hbus, ← hreg]
  constructor
  · intro h
    exact ⟨(h 3 (by decide)).2 (by rw [h3]), (h 4 (by decide)).1 (by rw [h4])⟩
  · rintro ⟨hwe, hrw⟩ j hj
    -- a mark is on EX in cycle 3 and on EX/MEM in cycle 4 only
    match j, hj with
    | 1, _ => exact silent_of_unmarked h1
    | 2, _ => exact silent_of_unmarked h2
    | 3, _ => rw [h3]; exact ⟨fun hc => absurd hc Bool.false_ne_true, fun _ => hwe⟩
    | 4, _ => rw [h4]; exact ⟨fun _ => hrw, fun hc => absurd hc Bool.false_ne_true⟩
    | j + 5, _ => exact silent_of_unmarked (resetRun_stale_none (Nat.le_add_left 5 j) h5)

end

/-! ### The number of edges -/

/-- After the first edge of the reset everything but the output register of `IMEM` is as it is
out of reset. -/
theorem resetRun_one (imem : InstructionMemory) (hh : s.haltSig = false) (hk : 1 ≤ k)
    (din : ℕ → Word) : (resetRun imem s k din 1).1
      = { outOfReset imem (s.nextRegisters (din 0) DontCare.zero) with
          ir := (s.nextFetch imem true).1, pcUsed := (s.nextFetch imem true).2 } := by
  rw [resetRun_hold hk]
  show s.step imem (CpuInput.reset (din 0)) = _
  rw [CpuInput.reset, step_reset, hh]
  rfl

/-- Two edges restart the core: no mark is left and it is out of reset. -/
theorem cleanRestart_two (imem : InstructionMemory) (hh : s.haltSig = false) (hk : 2 ≤ k)
    (din : ℕ → Word) : CleanRestart imem s k din := by
  refine cleanRestart_of_outOfReset ((resetRun_hold (Nat.le_refl k)).trans
    (holdReset_outOfReset imem hh din hk)) fun j hj => ?_
  rcases Nat.lt_or_eq_of_le hj with hj | rfl
  · exact silent_of_unmarked (resetRun_stale_none hj (resetRun_stale_two hk))
  · exact silent_of_unmarked (resetRun_stale_one (Nat.le_of_succ_le hk))

/-- One edge restarts it without a stall: `IMEM` fetches word 0. -/
theorem cleanRestart_one (imem : InstructionMemory) (hh : s.haltSig = false)
    (hs : s.stall = false) (hfreeze : s.freeze = false) (din : ℕ → Word) :
    CleanRestart imem s 1 din := by
  have hone := resetRun_one imem hh (Nat.le_refl 1) din
  have hfetch : s.nextFetch imem true = (imem.at 0#32, 0#32) := by
    simp [nextFetch, stallIfId_eq, hs, hfreeze, CpuTop.pc, programCounter]
  rw [hfetch] at hone
  refine cleanRestart_of_outOfReset hone fun j hj => ?_
  have hmark : (resetRun imem s 1 din 1).2 = ⟨s.stall, false, false, false⟩ :=
    resetRun_stale_one (Nat.le_refl 1)
  rw [hs] at hmark
  exact silent_of_unmarked (resetRun_stale_none hj hmark)

/-- One edge in a stall: `IMEM` holds, and the core restarts exactly when it holds word 0 and
that word writes nothing. -/
theorem cleanRestart_stall_iff (imem : InstructionMemory) (hh : s.haltSig = false)
    (hs : s.stall = true) (din : ℕ → Word) : CleanRestart imem s 1 din ↔
      s.ir = imem.at 0#32 ∧ s.pcUsed = 0#32 ∧ writesNothing (imem.at 0#32) = true := by
  have hone := resetRun_one imem hh (Nat.le_refl 1) din
  have hfetch : s.nextFetch imem true = (s.ir, s.pcUsed) := by
    simp [nextFetch, stallIfId_eq, hs, hazard_eq, flush_of_stall hs]
  rw [hfetch] at hone
  constructor
  · intro hclean
    -- what the stall kept is what enters IF/ID
    have hword : ifIdD s.pcUsed s.ir = ifIdD 0#32 (imem.at 0#32) := by
      rw [← hclean.first]
      show _ = (resetRun imem s 1 din 1).1.nextIfId false
      simp [hone, nextIfId, outOfReset, hazard_eq, flush, IdEx.zero, IdEx.taken, stallIfId_eq,
        stall_eq, readsMemLoad]
    have hpc : s.pcUsed = 0#32 := congrArg IfId.pc hword
    have hir : s.ir = imem.at 0#32 := congrArg IfId.ir hword
    rw [hir, hpc] at hone
    exact ⟨hir, hpc, (silent_of_one hone hs).mp hclean.silent⟩
  · rintro ⟨hir, hpc, hnothing⟩
    rw [hir, hpc] at hone
    exact cleanRestart_of_outOfReset hone ((silent_of_one hone hs).mpr hnothing)

end

/-- **When a reset restarts the core cleanly.** From any state without a halt or a trap, and
for `k ≥ 1` edges with `RST` high. -/
theorem restart_clean_iff (imem : InstructionMemory) {s : CpuTop} (hh : s.haltSig = false)
    (hex : s.idExQ.trap = false) (hmem : s.exMemQ.trap = false) (hwb : s.memWbQ.trap = false)
    {k : ℕ} (hk : 1 ≤ k) (din : ℕ → Word) :
    CleanRestart imem s k din ↔
      2 ≤ k ∨ s.stall = false ∨
        (s.ir = imem.at 0#32 ∧ s.pcUsed = 0#32 ∧ writesNothing (imem.at 0#32) = true) := by
  have hfreeze : s.freeze = false := by simp [freeze, hh, hex, hmem, hwb]
  by_cases hk2 : 2 ≤ k
  · exact iff_of_true (cleanRestart_two imem hh hk2 din) (.inl hk2)
  · obtain rfl : k = 1 := by omega
    cases hs : s.stall with
    | false => exact iff_of_true (cleanRestart_one imem hh hs hfreeze din) (.inr (.inl rfl))
    | true =>
        rw [cleanRestart_stall_iff imem hh hs din]
        simp [hk2]

/-- Two edges restart `lw x1, 0(x0)` and `addi x2, x1, 1` in their load-use stall. -/
theorem restart_clean_iff_stall :
    let imem : InstructionMemory := fun a => if a = 0#13 then 0x00002083#32 else 0x00108113#32
    CleanRestart imem (runFrom imem (outOfReset imem fun _ => 0#32) (fun _ => 0#32) 3) 2
      fun _ => 0#32 := by
  intro imem
  exact (restart_clean_iff imem (by decide +kernel) (by decide +kernel) (by decide +kernel)
    (by decide +kernel) (by decide : 1 ≤ 2) _).mpr (.inl (Nat.le_refl 2))

/-- One edge does not: the word that the stall kept in the `IMEM` register enters IF/ID first. -/
theorem restart_not_clean :
    ¬ ∀ (imem : InstructionMemory) (s : CpuTop), s.haltSig = false → s.idExQ.trap = false →
      s.exMemQ.trap = false → s.memWbQ.trap = false → ∀ k, 1 ≤ k → ∀ din,
        CleanRestart imem s k din := by
  intro hall
  let imem : InstructionMemory := fun a => if a = 0#13 then 0x00002083#32 else 0x00108113#32
  let s := runFrom imem (outOfReset imem fun _ => 0#32) (fun _ => 0#32) 3
  have hclean := hall imem s (by decide +kernel) (by decide +kernel) (by decide +kernel)
    (by decide +kernel) 1 (Nat.le_refl 1) fun _ => 0#32
  have hpc : (resetRun imem s 1 (fun _ => 0#32) 2).1.ifIdQ.pc = 0x0000000C#32 := by decide +kernel
  exact absurd (hpc.symm.trans (congrArg IfId.pc hclean.first)) (by decide)

end Rv32iPipeline
