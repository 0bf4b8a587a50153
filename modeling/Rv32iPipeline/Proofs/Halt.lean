import Rv32iPipeline.Proofs.Drain
import Rv32iPipeline.Proofs.Timing

/-!
# `Rv32iPipeline.Proofs.Halt`: when the core halts

`halt_sig` rises three cycles after the first trap of the executed path is in EX, and never
otherwise. Up to that cycle the core has done exactly the writes of the instructions before
the trap.

* `haltSig_iff`: the cycles with `halt_sig` high.
* `halted_registers`, `halted_regWrites`, `halted_busWrites`: what has been written in the
  cycle in which it rises.
* `halt_exact`: the main result, from reset.
-/

set_option autoImplicit false

namespace Rv32iPipeline

open CpuTop Clocked

section
variable {imem : InstructionMemory} {s : CpuTop} {d : Word} {a : Arch} {k : ℕ}

/-- A related state has no trap behind EX. -/
theorem Due.quiet (h : Due imem s d a k) :
    s.haltSig = false ∧ s.memWbQ.trap = false ∧ s.exMemQ.trap = false := by
  obtain ⟨ph, hsim, -⟩ := h
  exact ⟨hsim.halt, hsim.memWbTrap, hsim.exMemTrap⟩

/-- A related state with an instruction in EX meets the invariant of reachable states. -/
theorem Due.wf (h : Due imem s d a 0) : s.Wf where
  coherent := h.execute.1.coherent
  exMemTrap ht := absurd (h.quiet.2.2.symm.trans ht) Bool.false_ne_true
  held ht := by simp [h.quiet.1, h.quiet.2.1] at ht

/-- The trap bit in EX is the instruction's. -/
theorem Due.trap_eq (h : Due imem s d a 0) : s.idExQ.trap = isTrap (imem.at a.pc) :=
  h.execute.1.trap_eq.trans (Arch.decoded_trap imem a)

/-- A trap completes EX: its successors are flushed, with the architectural registers. -/
theorem Due.trap_flushed (h : Due imem s d a 0) (ht : isTrap (imem.at a.pc) = true) :
    Draining imem (s.step imem (CpuInput.run d)) (s.pcUsed + 4#32) a.registers .flushed := by
  rw [← h.execute.1.regs]
  exact h.wf.trap_flushed (h.trap_eq.trans ht) d

/-- Neither of the two cycles behind a first trap has `halt_sig` high. -/
theorem Due.haltSig_behind (h : Due imem s d a k) (d' : Word) :
    (s.step imem (CpuInput.run d)).haltSig = false ∧
      ((s.step imem (CpuInput.run d)).step imem (CpuInput.run d')).haltSig = false := by
  obtain ⟨hh, hwb, hmem⟩ := h.quiet
  have hh' : (s.step imem (CpuInput.run d)).haltSig = false := by
    show s.nextHalt false = false
    simp [nextHalt, hh, hwb]
  have hwb' : (s.step imem (CpuInput.run d)).memWbQ.trap = false := by
    show (s.nextMemWb ⟨false, d, DontCare.zero⟩).trap = false
    rw [nextMemWb_of_quiet hh hwb]
    exact hmem
  refine ⟨hh', ?_⟩
  show (s.step imem (CpuInput.run d)).nextHalt false = false
  simp [nextHalt, hh', hwb']

/-- A cycle with an empty EX/MEM slot, or one that writes no register. -/
theorem CpuTop.regWrite_of_rfWe (h : s.exMemQ.rfWe = false) (d : Word) (x : DontCare) :
    s.regWrite d x = [] := by
  simp [regWrite, h]

/-- A cycle whose EX slot asks for no store. -/
theorem CpuTop.busWrite_of_memWe (h : s.idExQ.memWe = false) : s.bus.write = [] := by
  simp [Bus.write, bus, h]

end

/-! ### The run from reset to the halt -/

section
variable (imem : InstructionMemory) (regs : Registers) (din : ℕ → Word)

/-- No instruction before `n` is a trap. -/
def NoTrapBefore (n : ℕ) : Prop :=
  ∀ m < n, isTrap (imem.at (execution imem regs din m).state.pc) = false

/-- Instruction `n` is the first trap of the path. -/
def FirstTrap (n : ℕ) : Prop :=
  NoTrapBefore imem regs din n ∧ isTrap (imem.at (execution imem regs din n).state.pc) = true

variable {imem regs din} {n : ℕ}

/-- The decoder's form of `NoTrapBefore`. -/
theorem NoTrapBefore.decoded (h : NoTrapBefore imem regs din n) :
    ∀ m < n, ((execution imem regs din m).state.decoded imem).trap = false :=
  fun m hm => (Arch.decoded_trap imem _).trans (h m hm)

/-- At the first trap the core is still related to the sequential machine. -/
theorem NoTrapBefore.due (h : NoTrapBefore imem regs din n) :
    Due imem (runFrom imem (outOfReset imem regs) din (execution imem regs din n).due)
      (din (execution imem regs din n).due) (execution imem regs din n).state 0 :=
  due_execution imem regs din h.decoded

/-- The three cycles behind the first trap. -/
theorem FirstTrap.draining (h : FirstTrap imem regs din n) : ∃ p,
    Draining imem (runFrom imem (outOfReset imem regs) din ((execution imem regs din n).due + 1)) p
        (execution imem regs din n).state.registers .flushed ∧
      Draining imem (runFrom imem (outOfReset imem regs) din ((execution imem regs din n).due + 2))
        p (execution imem regs din n).state.registers .frozen ∧
      Draining imem (runFrom imem (outOfReset imem regs) din ((execution imem regs din n).due + 3))
        p (execution imem regs din n).state.registers .shadow := by
  have h1 := h.1.due.trap_flushed h.2
  have h2 := h1.flushed_frozen (din ((execution imem regs din n).due + 1))
  exact ⟨_, h1, h2, h2.frozen_shadow (din ((execution imem regs din n).due + 2))⟩

/-- `halt_sig` stays set. -/
theorem haltSig_mono {s : CpuTop} {c c' : ℕ} (hc : c ≤ c')
    (h : (runFrom imem s din c).haltSig = true) : (runFrom imem s din c').haltSig = true := by
  induction hc with
  | refl => exact h
  | step _ ih => exact haltSig_step ih imem _

/-- `halt_sig` is high exactly from the third cycle after the first trap is in EX. -/
theorem haltSig_iff (c : ℕ) :
    (runFrom imem (outOfReset imem regs) din c).haltSig = true
      ↔ ∃ n, FirstTrap imem regs din n ∧ (execution imem regs din n).due + 3 ≤ c := by
  constructor
  · intro hc
    rcases (core_refines imem).onTime din ⟨⟨0#32, regs⟩, 2⟩ (due_outOfReset imem regs (din 0)) c
      with ⟨n, hn⟩ | ⟨n, hok, hnot, hlt⟩
    -- before the first trap completes there is no halt
    · exact absurd (hn.rel.quiet.1.symm.trans hc) Bool.false_ne_true
    · -- the first trap is `n`; the next two cycles do not have `halt_sig` high
      have hfirst : FirstTrap imem regs din n :=
        ⟨fun m hm => (Arch.decoded_trap imem _).symm.trans (hok m hm),
          (Arch.decoded_trap imem _).symm.trans (eq_true_of_ne_false hnot)⟩
      have hlow := hfirst.1.due.haltSig_behind (din ((execution imem regs din n).due + 1))
      refine ⟨n, hfirst, ?_⟩
      have hlt' : (execution imem regs din n).due < c := hlt
      have h1 : c ≠ (execution imem regs din n).due + 1 := by
        rintro rfl
        exact absurd (hlow.1.symm.trans hc) Bool.false_ne_true
      have h2 : c ≠ (execution imem regs din n).due + 2 := by
        rintro rfl
        exact absurd (hlow.2.symm.trans hc) Bool.false_ne_true
      omega
  · rintro ⟨n, hfirst, hle⟩
    obtain ⟨p, -, -, h3⟩ := hfirst.draining
    exact haltSig_mono hle h3.front.2.2.2

/-- In the cycle in which `halt_sig` rises the register array is the architectural one. -/
theorem FirstTrap.halted_registers (h : FirstTrap imem regs din n) :
    (runFrom imem (outOfReset imem regs) din ((execution imem regs din n).due + 3)).registers
      = (execution imem regs din n).state.registers := by
  obtain ⟨p, -, -, h3⟩ := h.draining
  exact h3.registers

/-- By then the register writes are those of the instructions before the trap. -/
theorem FirstTrap.halted_regWrites (h : FirstTrap imem regs din n) :
    trace (fun k => (runFrom imem (outOfReset imem regs) din k).regWrite (din k) DontCare.zero)
        ((execution imem regs din n).due + 3)
      = trace (fun k => (execution imem regs din k).state.regWrite imem
          (din ((execution imem regs din k).due + 1))) n := by
  obtain ⟨p, h1, h2, -⟩ := h.draining
  -- the trap and the empty slots behind it write nothing
  rw [trace_succ, trace_succ, regWrite_of_rfWe h1.rfWe, regWrite_of_rfWe h2.rfWe,
    List.append_nil, List.append_nil, trace_succ_left]
  -- the write of an instruction shows one cycle after it completes EX
  exact regWrites_execution imem regs din h.1.decoded

/-- By then the bus writes are those of the instructions before the trap. -/
theorem FirstTrap.halted_busWrites (h : FirstTrap imem regs din n) :
    trace (fun k => (runFrom imem (outOfReset imem regs) din k).bus.write)
        ((execution imem regs din n).due + 3)
      = trace (fun k => (execution imem regs din k).state.busWrite imem) n := by
  obtain ⟨p, h1, h2, -⟩ := h.draining
  have h0 := (h.1.due.wf.coherent.trap (h.1.due.trap_eq.trans h.2)).2.1
  have hempty : IdEx.zero.memWe = false := rfl
  rw [trace_succ, trace_succ, trace_succ, busWrite_of_memWe h0,
    busWrite_of_memWe (h1.front.2.1 ▸ hempty), busWrite_of_memWe (h2.front.2.1 ▸ hempty),
    List.append_nil, List.append_nil, List.append_nil]
  exact busWrites_execution imem regs din h.1.decoded

end

/-- **Halt soundness and completeness.** `RST` has been high for two or more edges, without
`halt_sig`. Then `halt_sig` is high in cycle `c` exactly when the first trap `n` of the
sequentially executed path was in EX in a cycle at most `c - 3`. It stays set. In the cycle
in which it rises, the instructions before the trap have performed their register and bus
writes, and nothing else has written. -/
theorem halt_exact (imem : InstructionMemory) {s : CpuTop} (hh : s.haltSig = false)
    (rin : ℕ → Word) {k : ℕ} (hk : 2 ≤ k) (din : ℕ → Word) :
    let core := runFrom imem (holdReset imem s rin k) din
    let regs := (holdReset imem s rin k).registers
    let path := execution imem regs din
    let E := fun n => (path n).due
    (∀ c, (core c).haltSig = true ↔ ∃ n, FirstTrap imem regs din n ∧ E n + 3 ≤ c) ∧
      (∀ n, NoTrapBefore imem regs din n →
        (core (E n)).InEx ((path n).state.decoded imem) ∧ (core (E n)).stall = false) ∧
      (∀ c, (core c).haltSig = true → (core (c + 1)).haltSig = true) ∧
      ∀ n, FirstTrap imem regs din n →
        (core (E n + 3)).registers = (path n).state.registers ∧
        trace (fun j => (core j).regWrite (din j) DontCare.zero) (E n + 3)
          = trace (fun j => (path j).state.regWrite imem (din (E j + 1))) n ∧
        trace (fun j => (core j).bus.write) (E n + 3)
          = trace (fun j => (path j).state.busWrite imem) n := by
  have hreset := holdReset_outOfReset imem hh rin hk
  have hregs : holdReset imem s rin k = outOfReset imem (holdReset imem s rin k).registers := by
    rw [hreset]
    rfl
  intro core regs path E
  have hcore : core = runFrom imem (outOfReset imem regs) din := by
    show runFrom imem (holdReset imem s rin k) din = _
    rw [hregs]
  rw [hcore]
  refine ⟨haltSig_iff, fun n hn => ?_, fun c hc => haltSig_step hc imem _, fun n hn =>
    ⟨hn.halted_registers, hn.halted_regWrites, hn.halted_busWrites⟩⟩
  exact ⟨hn.due.execute.1.inEx rfl, hn.due.execute.2⟩

/-- `ecall` everywhere: `halt_sig` is low in cycle 4 and high in cycle 5. -/
theorem halt_exact_ecall :
    let imem : InstructionMemory := fun _ => 0x00000073#32
    let s := holdReset imem (outOfReset imem fun _ => 0#32) (fun _ => 0#32) 2
    ∀ c, (runFrom imem s (fun _ => 0#32) c).haltSig = true ↔ 5 ≤ c := by
  intro imem s c
  have hfirst : FirstTrap imem s.registers (fun _ => 0#32) 0 :=
    ⟨fun m hm => absurd hm (Nat.not_lt_zero m), by decide⟩
  have hhalt := (halt_exact imem (s := outOfReset imem fun _ => 0#32) rfl (fun _ => 0#32)
    (Nat.le_refl 2) fun _ => 0#32).1 c
  refine hhalt.trans ⟨?_, fun hc => ⟨0, hfirst, hc⟩⟩
  rintro ⟨n, hn, hc⟩
  cases n with
  | zero => exact hc
  | succ n => exact absurd (hn.1 0 (Nat.succ_pos n)) (by decide)

end Rv32iPipeline
