import Rv32iPipeline.Proofs.Fetch
import Rv32iPipeline.Proofs.SquashedSlots

/-!
# `Rv32iPipeline.Proofs.ZeroRegister`: `x0` is zero everywhere

`x0` is enforced in three places: the write port of `Reg_File` drops a write to slot 0, its read
ports show zero there, and the forwarding unit selects the constant zero on a match. The flops in
between do carry nonzero results for `x0`, and a stall writes the forwarded values back into
ID/EX. `ZeroOk` is the invariant about these captured operands, under any resolution of `'X`.

`x0_reads_zero`: over any run after an edge with `RST` high, no edge writes slot 0, and an operand
of `x0` is zero.
-/

set_option autoImplicit false

namespace Rv32iPipeline

open CpuTop Clocked

/-- The marks follow the core and never feed back. -/
theorem slotRun_fst (imem : InstructionMemory) (s : CpuTop) (t : ZeroSlots) (inp : ℕ → CpuInput)
    (n : ℕ) : (slotRun imem s t inp n).1 = drive imem s inp n := by
  induction n with
  | zero => rfl
  | succ n ih =>
      rw [drive_succ, ← ih]
      rfl

/-- Both operands of the instruction in EX are zero where it names `x0`, whatever is in MEM and
in WB. -/
theorem ZeroOk.realRs_eq_zero {s : CpuTop} {t : ZeroSlots} (h : ZeroOk s t) :
    (s.idExQ.rs1Addr = 0#5 → s.realRs1 = 0#32) ∧ (s.idExQ.rs2Addr = 0#5 → s.realRs2 = 0#32) := by
  constructor
  · intro h0
    rw [realRs1_eq, h0]
    exact forwarded_x0 s _ (h.rs1 h0)
  · intro h0
    rw [realRs2_eq, h0]
    exact forwarded_x0 s _ (h.rs2 h0)

/-- The write port never changes slot 0. -/
theorem Registers.write_at_zero (regs : Registers) (en : Bool) (a : BitVec 5) (v : Word) :
    regs.write en a v 0#5 = regs 0#5 := by
  unfold Registers.write
  split
  · rename_i hen
    simp only [Bool.and_eq_true, bne_iff_ne] at hen
    exact if_neg hen.2.symm
  · rfl

/-- No run writes slot 0 of the register array. -/
theorem registers_zero_drive (imem : InstructionMemory) (s : CpuTop) (inp : ℕ → CpuInput) (n : ℕ) :
    (drive imem s inp n).registers 0#5 = s.registers 0#5 := by
  induction n with
  | zero => rfl
  | succ n ih =>
      rw [drive_succ, ← ih]
      exact Registers.write_at_zero ..

/-- **`x0` is zero for every image.** After any edge with `RST` high, and under any inputs and any
resolution of `'X`: slot 0 of the register array keeps its contents, and each operand in EX that
is an operand of `x0` is zero. -/
theorem x0_reads_zero (imem : InstructionMemory) (s : CpuTop) (d : Word) (x : DontCare)
    (inp : ℕ → CpuInput) (n : ℕ) :
    let core := drive imem (s.step imem ⟨true, d, x⟩) inp n
    core.registers 0#5 = s.registers 0#5 ∧
      (core.idExQ.rs1Addr = 0#5 → core.realRs1 = 0#32) ∧
      (core.idExQ.rs2Addr = 0#5 → core.realRs2 = 0#32) := by
  intro core
  refine ⟨?_, ?_⟩
  · have hreset : (s.step imem ⟨true, d, x⟩).registers 0#5 = s.registers 0#5 :=
      Registers.write_at_zero ..
    exact (registers_zero_drive imem _ inp n).trans hreset
  · have hok := (zeroOk_slotRun imem s d x inp n).realRs_eq_zero
    rw [slotRun_fst] at hok
    exact hok

end Rv32iPipeline
