import Rv32iPipeline.Proofs.Simulation

/-!
# `Rv32iPipeline.Proofs.Reset`: edges with `RST` high

An edge with `RST` high clears the four pipeline registers and nothing else. `IMEM` has no
reset and obeys a stall, a flush and a freeze as always, so the first such edge may leave a
stale word in its output register. The second edge sees an empty pipeline and fetches word
0, unless `halt_sig` freezes `IMEM`.

`holdReset_outOfReset`: without `halt_sig`, two or more edges lead to `outOfReset`, whatever
the flops held before.
-/

set_option autoImplicit false

namespace Rv32iPipeline.CpuTop

open Clocked

variable {imem : InstructionMemory} {s : CpuTop}

/-- The pipeline registers are empty. -/
structure Cleared (s : CpuTop) : Prop where
  ifId : s.ifIdQ = IfId.zero
  idEx : s.idExQ = IdEx.zero
  exMem : s.exMemQ = ExMem.zero
  memWb : s.memWbQ = MemWb.zero

/-- An edge with `RST` high clears the pipeline registers. -/
theorem cleared_step_reset (imem : InstructionMemory) (s : CpuTop) (d : Word) :
    (s.step imem (CpuInput.reset d)).Cleared := by
  rw [CpuInput.reset, step_reset]
  exact ⟨rfl, rfl, rfl, rfl⟩

/-- No edge with `RST` high assigns `halt_sig`. -/
theorem haltSig_step_reset (imem : InstructionMemory) (s : CpuTop) (d : Word) :
    (s.step imem (CpuInput.reset d)).haltSig = s.haltSig := rfl

/-- Behind a cleared pipeline only `halt_sig` freezes. -/
theorem Cleared.freeze_eq (h : s.Cleared) : s.freeze = s.haltSig := by
  simp [freeze, h.idEx, h.exMem, h.memWb, IdEx.zero, ExMem.zero, MemWb.zero]

/-- A cleared pipeline writes no register. -/
theorem Cleared.nextRegisters_eq (h : s.Cleared) (d : Word) (x : DontCare) :
    s.nextRegisters d x = s.registers :=
  nextRegisters_of_rfWe (by rw [h.exMem]; rfl) d x

/-- What `IMEM` does behind a cleared pipeline: it fetches, or it is frozen by `halt_sig`. -/
theorem Cleared.nextFetch_eq (h : s.Cleared) (imem : InstructionMemory) (rst : Bool) :
    s.nextFetch imem rst
      = if s.haltSig then (0#32, s.pcUsed) else (imem.at (s.pc rst), s.pc rst) := by
  simp [nextFetch, hazard_eq, flush_of_idEx_zero h.idEx, stallIfId_eq,
    stall_of_idEx_zero h.idEx, h.freeze_eq]

/-- A further edge with `RST` high fetches word 0. -/
theorem Cleared.step_reset_eq (h : s.Cleared) (hh : s.haltSig = false) (d : Word) :
    s.step imem (CpuInput.reset d) = outOfReset imem s.registers := by
  rw [CpuInput.reset, step_reset, h.nextFetch_eq, hh, h.nextRegisters_eq]
  rfl

/-- `RST` held high for `k` edges. -/
def holdReset (imem : InstructionMemory) (s : CpuTop) (din : ℕ → Word) (k : ℕ) : CpuTop :=
  run (fun s d => s.step imem (CpuInput.reset d)) s din k

theorem holdReset_succ (imem : InstructionMemory) (s : CpuTop) (din : ℕ → Word) (k : ℕ) :
    holdReset imem s din (k + 1) = (holdReset imem s din k).step imem (CpuInput.reset (din k)) :=
  rfl

/-- `halt_sig` keeps its value over any number of edges with `RST` high. -/
theorem haltSig_holdReset (imem : InstructionMemory) (s : CpuTop) (din : ℕ → Word) (k : ℕ) :
    (holdReset imem s din k).haltSig = s.haltSig := by
  induction k with
  | zero => rfl
  | succ k ih => rw [holdReset_succ, haltSig_step_reset, ih]

/-- One edge is enough to clear the pipeline. -/
theorem cleared_holdReset (imem : InstructionMemory) (s : CpuTop) (din : ℕ → Word) (k : ℕ) :
    (holdReset imem s din (k + 1)).Cleared :=
  cleared_step_reset imem _ _

/-- The register array after one or more edges: the first edge performs the write that was
in MEM. -/
theorem registers_holdReset (imem : InstructionMemory) (s : CpuTop) (din : ℕ → Word) (k : ℕ) :
    (holdReset imem s din (k + 1)).registers = s.nextRegisters (din 0) DontCare.zero := by
  induction k with
  | zero => rfl
  | succ k ih =>
      rw [← ih]
      exact (cleared_holdReset imem s din k).nextRegisters_eq (din (k + 1)) DontCare.zero

/-- **Two edges reset the core**, without `halt_sig`. -/
theorem holdReset_outOfReset (imem : InstructionMemory) (hh : s.haltSig = false)
    (din : ℕ → Word) {k : ℕ} (hk : 2 ≤ k) :
    holdReset imem s din k = outOfReset imem (s.nextRegisters (din 0) DontCare.zero) := by
  obtain ⟨k, rfl⟩ := Nat.exists_eq_add_of_le' hk
  -- the first edges clear the pipeline and the last one fetches word 0
  rw [holdReset_succ, (cleared_holdReset imem s din k).step_reset_eq, registers_holdReset]
  exact (haltSig_holdReset ..).trans hh

end Rv32iPipeline.CpuTop
