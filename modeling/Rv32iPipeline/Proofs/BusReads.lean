import Rv32iPipeline.Proofs.Timing

/-!
# `Rv32iPipeline.Proofs.BusReads`: when every load asks the bus once

`IOBUS_WE` is gated by the flush of EX/MEM, so that a stalled store asks once. `IOBUS_RDEN` is the
bit of ID/EX as it stands. A load that waits for the load before it therefore asks in the stall
cycle as well, at the address of the operand that it captured.

`bus_reads_iff`: the read requests of every run are the loads of the sequential execution, one
cycle each, exactly when no load of the path uses the register that the load before it writes.
-/

set_option autoImplicit false

namespace Rv32iPipeline

open CpuTop Clocked

/-- A read request: address and size (`mem_data`). -/
abbrev BusRead := Word × BitVec 3

/-- The read request of a cycle with these bus pins, if any. -/
def Bus.read (b : Bus) : List BusRead :=
  if b.iobusRden then [(b.dataAddress, b.memData)] else []

/-- The read request of the instruction, if it is a load. -/
def Arch.busRead (imem : InstructionMemory) (a : Arch) : List BusRead :=
  if (a.decoded imem).memRden then [(a.aluResult imem, (a.decoded imem).memData)] else []

/-- A cycle asks for at most one read. -/
theorem Bus.length_read (b : Bus) : b.read.length = b.iobusRden.toNat := by
  cases h : b.iobusRden <;> simp [Bus.read, h]

theorem Arch.length_busRead (imem : InstructionMemory) (a : Arch) :
    (a.busRead imem).length = (a.decoded imem).memRden.toNat := by
  cases h : (a.decoded imem).memRden <;> simp [Arch.busRead, h]

/-- A load `next` is decoded as reading the register that the load `d` writes. -/
def IdEx.loadPair (d next : IdEx) : Bool := next.memRden && d.loadUse next

section
variable {imem : InstructionMemory} {s : CpuTop} {d : Word} {a : Arch} {k : ℕ}

/-- An empty EX slot asks for nothing. -/
theorem iobusRden_of_idEx_zero (h : s.idExQ = IdEx.zero) : s.bus.iobusRden = false := by
  rw [bus, h]
  rfl

/-- The read request of the instruction in EX, stalled or not. -/
theorem iobusRden_of_inEx {d : IdEx} (h : s.InEx d) : s.bus.iobusRden = d.memRden := by
  obtain ⟨v1, v2, hv⟩ := h
  rw [bus, hv]

/-- The read request of the cycle that completes an instruction is the instruction's. -/
theorem Due.busRead_commit (h : Due imem s d a 0) : s.bus.read = a.busRead imem := by
  obtain ⟨-, hrden, hmd, haddr, -⟩ := h.bus_commit
  rw [Bus.read, Arch.busRead, hrden]
  split
  · rename_i hload
    rw [haddr (Or.inr hload), hmd]
  · rfl

/-- Whether the successor waits for its load does not depend on the value of the load. -/
theorem Arch.loadPair_step (a : Arch) (v v' : Word) :
    (a.decoded imem).loadPair ((a.step imem v).decoded imem)
      = (a.decoded imem).loadPair ((a.step imem v').decoded imem) := rfl

/-- The core is related to `a`, and asks for a read only as an instruction completes EX. -/
def ReadDue (imem : InstructionMemory) (s : CpuTop) (d : Word) (a : Arch) (k : ℕ) : Prop :=
  Due imem s d a k ∧ (0 < k → s.bus.iobusRden = false)

/-- Without dependent pairs of loads, the core refines the sequential machine with reads on time. -/
theorem reads_refine (imem : InstructionMemory) :
    Refines (fun s d => s.step imem (CpuInput.run d)) (Arch.step imem) (Arch.delay imem)
      (fun a => (a.decoded imem).trap = false ∧
        ∀ v, (a.decoded imem).loadPair ((a.step imem v).decoded imem) = false)
      (ReadDue imem) where
  wait := by
    rintro s d a k ⟨h, -⟩ d'
    refine ⟨(core_refines imem).wait h d', fun hpos => ?_⟩
    obtain ⟨ph, hsim, hk⟩ := h
    cases ph with
    | refill => exact iobusRden_of_idEx_zero (hsim.refill d').front.1
    -- one cycle before its completion nothing waits any more
    | decode =>
        simp only [Phase.wait] at hk
        omega
    | execute =>
        have hle := Bool.toNat_le s.stall
        simp only [Phase.wait] at hk
        omega
  commit := by
    rintro s d a ⟨h, -⟩ ⟨htrap, hpair⟩ d'
    refine ⟨(core_refines imem).commit h htrap d', fun hpos => ?_⟩
    obtain ⟨hsim, hs⟩ := h.execute
    have htrap' : s.idExQ.trap = false := hsim.trap_eq.trans htrap
    cases ht : a.taken imem with
    | true => exact iobusRden_of_idEx_zero (hsim.commit_taken hs ht htrap' d').front.1
    | false =>
        -- the successor is in EX, and it waits only for a load that it uses
        obtain ⟨hsim', -⟩ := hsim.commit_next hs ht htrap' d'
        rw [iobusRden_of_inEx (hsim'.inEx rfl)]
        have huse : (a.decoded imem).loadUse ((a.step imem d').decoded imem) = true := by
          cases hu : (a.decoded imem).loadUse ((a.step imem d').decoded imem) with
          | true => rfl
          | false => simp [Arch.delay, ht, hu] at hpos
        have hp := hpair d'
        rw [IdEx.loadPair, huse, Bool.and_true] at hp
        exact hp

/-- In the cycle after a load that its successor uses, the successor is in EX already. -/
theorem Due.inEx_of_loadUse (h : Due imem s d a 0) (htrap : (a.decoded imem).trap = false)
    {d' : Word} (huse : (a.decoded imem).loadUse ((a.step imem d').decoded imem) = true) :
    (s.step imem (CpuInput.run d)).InEx ((a.step imem d').decoded imem) := by
  obtain ⟨hsim, hs⟩ := h.execute
  have ht : a.taken imem = false := (Bool.not_eq_true _).mp fun hc =>
    Bool.false_ne_true ((Arch.loadUse_of_taken hc _).symm.trans huse)
  exact (hsim.commit_next hs ht (hsim.trap_eq.trans htrap) d').1.inEx rfl

end

/-! ### The run -/

section
variable (imem : InstructionMemory) (regs : Registers) (din : ℕ → Word)

/-- Instruction `n + 1` of the path is a load that uses the load before it. -/
def pairAt (n : ℕ) : Bool :=
  ((execution imem regs din n).state.decoded imem).loadPair
    ((execution imem regs din (n + 1)).state.decoded imem)

/-- Up to and in the cycle `due n` every load up to instruction `n` has asked the bus once. -/
def ReadsOnce (n : ℕ) : Prop :=
  trace (fun c => (runFrom imem (outOfReset imem regs) din c).bus.read)
      ((execution imem regs din n).due + 1)
    = trace (fun m => (execution imem regs din m).state.busRead imem) (n + 1)

variable {imem regs din}
variable (hok : ∀ n, ((execution imem regs din n).state.decoded imem).trap = false)
include hok

/-- Without dependent pairs every load asks once. -/
theorem readsOnce_of_no_pair (hpair : ∀ n, pairAt imem regs din n = false) (n : ℕ) :
    ReadsOnce imem regs din n := by
  have hstart : ReadDue imem (outOfReset imem regs) (din 0) ⟨0#32, regs⟩ 2 :=
    ⟨due_outOfReset imem regs (din 0), fun _ => rfl⟩
  have hwait : ∀ c r k, ReadDue imem (run (fun s d => s.step imem (CpuInput.run d))
      (outOfReset imem regs) din c) (din c) r (k + 1) →
      (runFrom imem (outOfReset imem regs) din c).bus.read = [] := fun c r k h => by
    have hsilent : (runFrom imem (outOfReset imem regs) din c).bus.iobusRden = false :=
      h.2 (Nat.succ_pos k)
    simp [Bus.read, hsilent]
  have hon := (reads_refine imem).at_due din ⟨⟨0#32, regs⟩, 2⟩ hstart (n := n) fun m _ =>
    ⟨hok m, fun v => (Arch.loadPair_step _ v _).trans (hpair m)⟩
  have htrace := (reads_refine imem).trace_eq din ⟨⟨0#32, regs⟩, 2⟩ hstart
    (fun c => (runFrom imem (outOfReset imem regs) din c).bus.read)
    (fun m => (execution imem regs din m).state.busRead imem) hwait
    (fun _ _ h _ => h.1.busRead_commit) _ n hon
  rw [ReadsOnce, trace_succ, trace_succ]
  exact congrArg₂ (· ++ ·) htrace (due_execution imem regs din fun m _ => hok m).busRead_commit

/-- A dependent pair asks once too often. -/
theorem no_pair_of_readsOnce (h : ∀ n, ReadsOnce imem regs din n) (n : ℕ) :
    pairAt imem regs din n = false := by
  by_contra hpair
  rw [Bool.not_eq_false, pairAt, IdEx.loadPair, Bool.and_eq_true] at hpair
  obtain ⟨hload, huse⟩ := hpair
  have hdue := due_execution imem regs din (n := n) fun m _ => hok m
  have hdue' := due_execution imem regs din (n := n + 1) fun m _ => hok m
  -- the pair takes two cycles, and both of them ask
  have htwo : (execution imem regs din (n + 1)).due = (execution imem regs din n).due + 2 := by
    have ht : (execution imem regs din n).state.taken imem = false := (Bool.not_eq_true _).mp
      fun hc => Bool.false_ne_true ((Arch.loadUse_of_taken hc _).symm.trans huse)
    rw [execution_due_succ, ht, huse]
    rfl
  have hstalled : (runFrom imem (outOfReset imem regs) din
      ((execution imem regs din n).due + 1)).bus.iobusRden = true :=
    (iobusRden_of_inEx (hdue.inEx_of_loadUse (hok n) huse)).trans hload
  have hdone : (runFrom imem (outOfReset imem regs) din
      ((execution imem regs din n).due + 2)).bus.iobusRden = true := by
    rw [← htwo]
    exact hdue'.bus_commit.2.1.trans hload
  have hlen := congrArg List.length (h n)
  have hlen' := congrArg List.length (h (n + 1))
  -- between the two completions there are two reads for one load
  rw [htwo, trace_succ, trace_succ, List.length_append, List.length_append, hlen,
    Bus.length_read, Bus.length_read, hstalled, hdone, trace_succ _ (n + 1), List.length_append,
    Arch.length_busRead, hload] at hlen'
  rw [Bool.toNat_true] at hlen'
  omega

end

/-- **When every load asks the bus once.** `RST` has been high for two or more edges, without
`halt_sig`, and `DATA_IN` is arbitrary. On a path of implemented instructions and `FENCE`s, the read
requests up to each completion are those of the loads up to that instruction, in order and with
their own address and size, exactly when no load of the path uses the register that the instruction
before it loads. -/
theorem bus_reads_iff (imem : InstructionMemory) {s : CpuTop} (hh : s.haltSig = false)
    (rin : ℕ → Word) {k : ℕ} (hk : 2 ≤ k) (din : ℕ → Word)
    (hpath : ∀ n,
      let ir := imem.at (execution imem (holdReset imem s rin k).registers din n).state.pc
      isImplemented ir = true ∨ isFence ir = true) :
    let core := runFrom imem (holdReset imem s rin k) din
    let path := execution imem (holdReset imem s rin k).registers din
    (∀ n, trace (fun c => (core c).bus.read) ((path n).due + 1)
        = trace (fun m => (path m).state.busRead imem) (n + 1))
      ↔ ∀ n, ((path (n + 1)).state.decoded imem).memRden = true →
        ((path n).state.decoded imem).loadUse ((path (n + 1)).state.decoded imem) = false := by
  have hregs : outOfReset imem (holdReset imem s rin k).registers = holdReset imem s rin k := by
    rw [holdReset_outOfReset imem hh rin hk]
    rfl
  have htrap : ∀ n, ((execution imem (holdReset imem s rin k).registers din n).state.decoded
      imem).trap = false := fun n => idExD_trap_of_implemented _ _ (hpath n)
  intro core path
  have hpair : ∀ n, pairAt imem (holdReset imem s rin k).registers din n = false ↔
      (((path (n + 1)).state.decoded imem).memRden = true →
        ((path n).state.decoded imem).loadUse ((path (n + 1)).state.decoded imem) = false) := by
    intro n
    show (((path (n + 1)).state.decoded imem).memRden &&
      ((path n).state.decoded imem).loadUse ((path (n + 1)).state.decoded imem)) = false ↔ _
    cases ((path (n + 1)).state.decoded imem).memRden <;> simp
  rw [← forall_congr' hpair]
  have hreads : ∀ n, ReadsOnce imem (holdReset imem s rin k).registers din n ↔
      trace (fun c => (core c).bus.read) ((path n).due + 1)
        = trace (fun m => (path m).state.busRead imem) (n + 1) := by
    intro n
    rw [ReadsOnce, hregs]
  rw [← forall_congr' hreads]
  exact ⟨no_pair_of_readsOnce htrap, readsOnce_of_no_pair htrap⟩

/-- `lw x1, 0(x2)` everywhere: no load uses another, and every load asks once. -/
theorem bus_reads_iff_loads :
    let imem : InstructionMemory := fun _ => 0x00012083#32
    let s := holdReset imem (outOfReset imem fun _ => 0#32) (fun _ => 0#32) 2
    ∀ n, trace (fun c => (runFrom imem s (fun _ => 0#32) c).bus.read)
        ((execution imem s.registers (fun _ => 0#32) n).due + 1)
      = trace (fun m => (execution imem s.registers (fun _ => 0#32) m).state.busRead imem)
        (n + 1) := by
  intro imem s
  have hword : isImplemented 0x00012083#32 = true := by decide
  have huse : ∀ a b : Arch, (a.decoded imem).loadUse (b.decoded imem) = false := fun _ _ => by
    simp only [IdEx.loadUse, Arch.decoded, idExD, InstructionMemory.at, ifIdD, imem]
    decide
  exact (bus_reads_iff imem (s := outOfReset imem fun _ => 0#32) rfl (fun _ => 0#32)
    (Nat.le_refl 2) (fun _ => 0#32) fun _ => .inl hword).mpr fun _ _ => huse _ _

/-- `lw x1, 0(x1)` everywhere: two loads have asked three times. -/
theorem bus_reads_repeated :
    ¬ ∀ (imem : InstructionMemory) (s : CpuTop) (rin : ℕ → Word) (k : ℕ) (din : ℕ → Word),
      s.haltSig = false → 2 ≤ k → (∀ pc, isImplemented (imem.at pc) = true) → ∀ n,
      trace (fun c => (runFrom imem (holdReset imem s rin k) din c).bus.read)
          ((execution imem (holdReset imem s rin k).registers din n).due + 1)
        = trace (fun m =>
            (execution imem (holdReset imem s rin k).registers din m).state.busRead imem)
          (n + 1) := by
  intro hall
  let imem : InstructionMemory := fun _ => 0x0000A083#32
  have hword : isImplemented 0x0000A083#32 = true := by decide
  have hreads := congrArg List.length (hall imem (outOfReset imem fun _ => 0#32) (fun _ => 0#32) 2
    (fun _ => 0#32) rfl (Nat.le_refl 2) (fun _ => hword) 1)
  revert hreads
  decide +kernel

end Rv32iPipeline
