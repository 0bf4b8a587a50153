import Rv32iPipeline.Proofs.Decoding
import Rv32iPipeline.Proofs.Execute
import Rv32iPipeline.Proofs.Timing

/-!
# `Rv32iPipeline.Proofs.Isa`: the pipeline implements the RV32I machine

The sequential machine of `Spec/Sequential` runs the blocks of the core. This module maps its
states to those of the RV32I machine (`Arch.hart`, `SeqSystem.machine`): the register file is what
the read ports show. A word that is an operation moves both machines alike (`Arch.machine_apply`).

`Memory.responder` puts any memory on the bus of the core.

`attached_implements_rv32i`: for every memory and every run of the RV32I machine, the core reaches
the state before each instruction within three cycles an instruction, and has then done exactly the
register writes and stores of the run.
-/

set_option autoImplicit false

namespace Rv32iPipeline

open CpuTop Clocked
open Rv32i (Instr Op Effect Access Hart RegFile Memory Machine Store)

/-! ### States -/

/-- The register file as the read ports show it. -/
def Registers.file (regs : Registers) : RegFile where
  read := regs.read
  read_zero := rfl

/-- The program counter and what the read ports show. -/
def Arch.hart (a : Arch) : Hart where
  pc := a.pc
  regs := a.registers.file

/-- The write port, as a write of the register file. -/
theorem Registers.file_write (regs : Registers) (en : Bool) (rd : BitVec 5) (v : Word) :
    (regs.write en rd v).file = if en then regs.file.write rd v else regs.file := by
  cases en with
  | false => rfl
  | true =>
      apply RegFile.ext
      funext r
      show (regs.write true rd v).read r = if r = rd ∧ r ≠ 0#5 then v else regs.read r
      rw [Registers.read_write]
      simp only [true_and]

/-- A bus write as a store: its `mem_data` gives the number of bytes. -/
def BusWrite.store (b : BusWrite) : Store := (b.1, accessBytes (memSizeOf b.2.1), b.2.2)

/-- `mem_data` of an instruction carries its size and its sign. -/
theorem IdEx.memData_fields (d : IdEx) :
    memSizeOf d.memData = d.memSize ∧ memSignOf d.memData = d.memSign := by
  constructor
  · simp only [memSizeOf, IdEx.memData]
    rw [BitVec.extractLsb'_append_eq_of_le (by decide)]
    exact BitVec.extractLsb'_eq_self
  · rw [memSignOf, IdEx.memData, BitVec.getLsbD_append]
    simp

/-! ### One instruction -/

/-- A `FENCE` performs nothing but the step to the next word. -/
theorem performs_fence {w : Word} (hop : opcodeOf w = 0b0001111#7) (pc a b : Word)
    (regs : Registers) :
    (idExD (ifIdD pc w) regs DontCare.zero).Performs pc a b (Op.fence.effect pc a b) := by
  simp only [idExD, ifIdD, hop]
  exact ⟨rfl, fun h => absurd h Bool.false_ne_true, rfl, rfl⟩

/-- An effect that takes its value from memory is that of a load. -/
theorem effect_value_or_load (o : Op) (pc a b : Word) :
    (o.effect pc a b).rd = none ∨ (o.effect pc a b).value.isSome = true ∨
      ∃ addr n u, (o.effect pc a b).access = some (.load addr n u) := by
  cases o with
  | fence => exact .inl rfl
  | instr i =>
      cases i with
      | branch op rs1 rs2 off => exact .inl rfl
      | store op rs1 rs2 imm => exact .inl rfl
      | load op rd rs1 imm => exact .inr (.inr ⟨_, _, _, rfl⟩)
      | _ => exact .inr (.inl rfl)

/-- The core runs the word as the operation: what ID/EX holds performs its effect, on the registers
that the operation reads. -/
structure Executes (w : Word) (o : Op) : Prop where
  performs : ∀ pc a b regs,
    (idExD (ifIdD pc w) regs DontCare.zero).Performs pc a b (o.effect pc a b)
  rs1 : ∀ r, o.rs1 = some r → rs1Of w = r
  rs2 : ∀ r, o.rs2 = some r → rs2Of w = r
  trap : isTrap w = false

/-- An operation does not depend on a source that it does not have. -/
theorem op_effect_congr (o : Op) (pc : Word) {a a' b b' : Word} (h1 : ∀ r, o.rs1 = some r → a = a')
    (h2 : ∀ r, o.rs2 = some r → b = b') : o.effect pc a b = o.effect pc a' b' := by
  cases o with
  | fence => rfl
  | instr i =>
      show i.effect pc a b = i.effect pc a' b'
      have hfst : i.effect pc a b = i.effect pc a' b := by
        cases hr : i.rs1 with
        | none => exact Instr.effect_congr_rs1 hr pc a a' b
        | some r => rw [h1 r hr]
      have hsnd : i.effect pc a' b = i.effect pc a' b' := by
        cases hr : i.rs2 with
        | none => exact Instr.effect_congr_rs2 hr pc a' b b'
        | some r => rw [h2 r hr]
      exact hfst.trans hsnd

/-- The core runs an RV32I word as the operation that it encodes. -/
theorem executes_of_decode {w : Word} {o : Op} (h : Op.decode w = some o) : Executes w o := by
  have htrap : isTrap w = false :=
    (idExD_trap (ifIdD 0#32 w) (fun _ => 0#32) DontCare.zero).symm.trans
      (idExD_trap_of_implemented _ _
        ((isSome_op_decode w).mp (Option.isSome_iff_exists.mpr ⟨o, h⟩)))
  rcases op_decode_eq_some h with ⟨i, rfl, rfl⟩ | ⟨rfl, hop⟩
  · exact ⟨fun pc a b regs => idExD_performs pc a b regs DontCare.zero i,
      fun r hr => (idExD_rs1 0#32 (fun _ => 0#32) DontCare.zero hr).2,
      fun r hr => (idExD_rs2 0#32 (fun _ => 0#32) DontCare.zero hr).2, htrap⟩
  · exact ⟨performs_fence hop, fun r hr => absurd hr.symm (Option.some_ne_none r),
      fun r hr => absurd hr.symm (Option.some_ne_none r), htrap⟩

section
variable {imem : InstructionMemory} {a : Arch} {o : Op} (h : Executes (imem.at a.pc) o)
include h

/-- The decoded instruction, with the operands it has read, performs the effect of the hart. -/
theorem Arch.performs : (a.decoded imem).Performs a.pc (a.decoded imem).rs1 (a.decoded imem).rs2
    (a.hart.effect o) := by
  have hperf := h.performs a.pc (a.decoded imem).rs1 (a.decoded imem).rs2 a.registers
  -- the operands are those of the hart, or the operation does not depend on them
  have heff : o.effect a.pc (a.decoded imem).rs1 (a.decoded imem).rs2 = a.hart.effect o :=
    op_effect_congr o a.pc
      (fun r hr => by
        rw [hr, ← h.rs1 r hr]
        rfl)
      (fun r hr => by
        rw [hr, ← h.rs2 r hr]
        rfl)
  exact heff ▸ hperf

/-- The instruction moves the hart by its effect. -/
theorem Arch.hart_step (load : Word) :
    (a.step imem load).hart = a.hart.apply (a.hart.effect o) load := by
  have hperf := Arch.performs h
  apply Hart.ext
  · exact hperf.nextPc
  · show ((a.registers.write _ _ _).file : RegFile) = _
    rw [Registers.file_write, Hart.apply, ← hperf.rd]
    cases hwe : (a.decoded imem).rfWe with
    | false => rfl
    | true =>
        have hvalue := hperf.value hwe 0#32 load DontCare.zero
        simp only [if_true, ← hvalue]
        rfl

/-- The register write of the instruction. -/
theorem Arch.regWrite_eq (load : Word) :
    a.regWrite imem load = (a.hart.effect o).regWrite load := by
  have hperf := Arch.performs h
  rw [Arch.regWrite, Effect.regWrite, ← hperf.rd]
  cases hwe : (a.decoded imem).rfWe with
  | false => rfl
  | true =>
      have hvalue := hperf.value hwe 0#32 load DontCare.zero
      simp only [if_true, Bool.true_and, bne_iff_ne, ← hvalue, ite_not]
      rfl

/-- The access of the instruction, in the words of the core. -/
theorem Arch.access_eq : (a.hart.effect o).access =
    if (a.decoded imem).memWe then
      some (.store (a.aluResult imem) (accessBytes (memSizeOf (a.decoded imem).memData))
        (a.decoded imem).rs2)
    else if (a.decoded imem).memRden then
      some (.load (a.aluResult imem) (accessBytes (memSizeOf (a.decoded imem).memData))
        (memSignOf (a.decoded imem).memData))
    else none := by
  have hreq := (Arch.performs h).access
  obtain ⟨hsize, hsign⟩ := (a.decoded imem).memData_fields
  rw [IdEx.requests] at hreq
  rw [hsize, hsign]
  cases hwe : (a.decoded imem).memWe with
  | false =>
      cases hrden : (a.decoded imem).memRden with
      | false => simpa [hwe, hrden] using hreq
      | true => simpa [hwe, hrden, Arch.aluResult] using hreq.symm
  | true =>
      -- no instruction both loads and stores
      have hrden : (a.decoded imem).memRden = false := (Bool.not_eq_true _).mp fun hr => by
        have := ((a.decoded_coherent imem).load hr).2.2.1
        rw [hwe] at this
        exact Bool.noConfusion this
      simpa [hwe, hrden, Arch.aluResult] using hreq.symm

/-- The stores of the instruction. -/
theorem Arch.busWrite_stores :
    (a.busWrite imem).map BusWrite.store = (a.hart.effect o).stores := by
  rw [Effect.stores, Arch.access_eq h, Arch.busWrite]
  cases (a.decoded imem).memWe with
  | false => cases (a.decoded imem).memRden <;> rfl
  | true => rfl

/-- A load of the hart is a load of the core, with the same destination. -/
theorem Arch.load_eq {addr : Word} {n : ℕ} {u : Bool}
    (hacc : (a.hart.effect o).access = some (.load addr n u)) :
    (a.decoded imem).memRden = true ∧ addr = a.aluResult imem ∧
      n = accessBytes (memSizeOf (a.decoded imem).memData) ∧
      u = memSignOf (a.decoded imem).memData ∧
      (a.hart.effect o).rd = some (a.decoded imem).regWriteAddr := by
  have heq := Arch.access_eq h
  rw [hacc] at heq
  cases hwe : (a.decoded imem).memWe with
  | true => simp [hwe] at heq
  | false =>
      cases hrden : (a.decoded imem).memRden with
      | false => simp [hwe, hrden] at heq
      | true =>
          simp only [hwe, hrden, Bool.false_eq_true, if_false, if_true, Option.some.injEq,
            Access.load.injEq] at heq
          have hrd := (Arch.performs h).rd
          rw [((a.decoded_coherent imem).load hrden).1] at hrd
          exact ⟨rfl, heq.1, heq.2.1, heq.2.2, hrd.symm⟩

/-- A store of the hart is a store of the core. -/
theorem Arch.store_eq {addr data : Word} {n : ℕ}
    (hacc : (a.hart.effect o).access = some (.store addr n data)) :
    (a.decoded imem).memWe = true ∧ addr = a.aluResult imem := by
  have heq := Arch.access_eq h
  rw [hacc] at heq
  cases hwe : (a.decoded imem).memWe with
  | true =>
      simp only [hwe, if_true, Option.some.injEq, Access.store.injEq] at heq
      exact ⟨rfl, heq.1⟩
  | false => cases hrden : (a.decoded imem).memRden <;> simp [hwe, hrden] at heq

/-- The instruction moves the machine by its effect, when a load gets the memory's answer. A load
to `x0` may get anything. -/
theorem Arch.machine_apply {μ : Type*} (M : Memory μ) (m : μ) {load : Word}
    (hload : (a.decoded imem).memRden = true → (a.decoded imem).regWriteAddr ≠ 0#5 →
      load = M.load m (a.aluResult imem) (accessBytes (memSizeOf (a.decoded imem).memData))
        (memSignOf (a.decoded imem).memData)) :
    (⟨(a.step imem load).hart, M.perform m (a.hart.effect o).access⟩ : Machine μ)
        = (⟨a.hart, m⟩ : Machine μ).apply M (a.hart.effect o) ∧
      a.regWrite imem load
        = (a.hart.effect o).regWrite (M.answer m (a.hart.effect o).access) := by
  rw [Arch.hart_step h, Arch.regWrite_eq h]
  rcases effect_value_or_load o a.pc (a.hart.operand o.rs1) (a.hart.operand o.rs2)
    with hrd | hval | ⟨addr, n, u, hacc⟩
  -- only the value of a load depends on the answer
  · have hrd' : (a.hart.effect o).rd = none := hrd
    simp only [Machine.apply, Hart.apply, Effect.regWrite, hrd', and_self]
  · obtain ⟨v, hv⟩ := Option.isSome_iff_exists.mp hval
    have hv' : (a.hart.effect o).value = some v := hv
    simp only [Machine.apply, Hart.apply, Effect.regWrite, hv', Option.getD_some, and_self]
  · have hacc' : (a.hart.effect o).access = some (.load addr n u) := hacc
    obtain ⟨hrden, rfl, rfl, rfl, hrd⟩ := Arch.load_eq h hacc'
    by_cases h0 : (a.decoded imem).regWriteAddr = 0#5
    -- `x0` drops whatever the load gets
    · simp only [Machine.apply, Hart.apply, Effect.regWrite, hrd, h0, if_true,
        RegFile.write_x0, and_self]
    · rw [hload hrden h0, hacc']
      simp only [Machine.apply, hacc', Memory.answer, and_self]

/-- The memory after the access of the instruction. -/
theorem Arch.perform_eq {μ : Type*} (M : Memory μ) (m : μ) :
    M.perform m (a.hart.effect o).access =
      if (a.decoded imem).memWe then
        M.store m (a.aluResult imem) (accessBytes (memSizeOf (a.decoded imem).memData))
          (a.decoded imem).rs2
      else m := by
  rw [Arch.access_eq h]
  cases (a.decoded imem).memWe with
  | false => cases (a.decoded imem).memRden <;> rfl
  | true => rfl

end

/-- The core runs the instruction memory as the program `prog`: every word that is an operation
there is run as that operation. -/
def RunsAs (imem : InstructionMemory) (prog : Word → Word) : Prop :=
  ∀ pc o, Op.decode (prog pc) = some o → Executes (imem.at pc) o

/-- The core runs an instruction memory as the RV32I program that it holds. -/
theorem runsAs_self (imem : InstructionMemory) : RunsAs imem imem.at := fun _ _ =>
  executes_of_decode

/-- The effect of a machine whose hart is that of an architectural state. -/
theorem Arch.effect_eq_some {μ : Type*} {prog : Word → Word} {a : Arch} {m : μ} {e : Effect}
    (he : (⟨a.hart, m⟩ : Machine μ).effect prog = some e) :
    ∃ o, Op.decode (prog a.pc) = some o ∧ a.hart.effect o = e :=
  Option.map_eq_some_iff.mp he

/-! ### A memory on the bus -/

section
variable {μ : Type*} (imem : InstructionMemory) (M : Memory μ)

/-- The memory as a responder: `mem_data` gives the number of bytes and the extension. -/
def memoryResponder : Responder μ where
  R m address memData := M.load m address (accessBytes (memSizeOf memData)) (memSignOf memData)
  W m address memData data := M.store m address (accessBytes (memSizeOf memData)) data

/-- The RV32I machine of a sequential machine. -/
def SeqSystem.machine (s : SeqSystem μ) : Machine μ := ⟨s.arch.hart, s.mem⟩

variable {imem M} {prog : Word → Word} (hprog : RunsAs imem prog)
include hprog

/-- One instruction of the sequential machine is one of the RV32I machine. -/
theorem SeqSystem.machine_step {s : SeqSystem μ} {e : Effect}
    (he : s.machine.effect prog = some e) :
    (s.step imem (memoryResponder M)).machine = s.machine.apply M e ∧
      s.regWrite imem (memoryResponder M) = e.regWrite (M.answer s.mem e.access) ∧
      (s.arch.busWrite imem).map BusWrite.store = e.stores := by
  obtain ⟨o, hdec, rfl⟩ := Arch.effect_eq_some he
  have ho := hprog _ o hdec
  have hload : (s.arch.decoded imem).memRden = true →
      (s.arch.decoded imem).regWriteAddr ≠ 0#5 → s.load imem (memoryResponder M) = _ :=
    fun _ _ => rfl
  obtain ⟨happly, hreg⟩ := Arch.machine_apply ho M s.mem hload
  refine ⟨?_, hreg, Arch.busWrite_stores ho⟩
  rw [SeqSystem.machine, SeqSystem.machine, ← happly, Arch.perform_eq ho M s.mem]
  rfl

/-- A run of the RV32I machine is a run of the sequential machine. -/
theorem SeqSystem.machine_run {s : SeqSystem μ} {n : ℕ} {h : Machine μ}
    (hrun : s.machine.run prog (fun _ => M) n = some h) :
    h = (s.run imem (memoryResponder M) n).machine := by
  refine Machine.run_invariant (I := fun k h => h = (s.run imem (memoryResponder M) k).machine)
    rfl (fun k h e _ he hk => ?_) hrun
  subst hk
  exact (SeqSystem.machine_step hprog he).1.symm

/-- What the executed instructions write is what the sequential machine writes. -/
theorem SeqSystem.machine_writes {s : SeqSystem μ} {n : ℕ} {h : Machine μ}
    (hrun : s.machine.run prog (fun _ => M) n = some h) :
    s.regWrites imem (memoryResponder M) n = s.machine.regWrites prog (fun _ => M) n ∧
      trace (fun k => ((s.run imem (memoryResponder M) k).arch.busWrite imem).map BusWrite.store) n
        = s.machine.stores prog (fun _ => M) n := by
  -- one instruction at a time, from the state that the run has before it
  have hat : ∀ k < n, (s.run imem (memoryResponder M) k).regWrite imem (memoryResponder M)
        = s.machine.regWrite prog (fun _ => M) k ∧
      ((s.run imem (memoryResponder M) k).arch.busWrite imem).map BusWrite.store
        = s.machine.storeAt prog (fun _ => M) k := by
    intro k hk
    obtain ⟨hk', e, hprev, he⟩ := Machine.exists_effect_of_lt hrun hk
    rw [Machine.regWrite_eq hprev he, Machine.storeAt_eq hprev he]
    obtain rfl := SeqSystem.machine_run hprog hprev
    exact (SeqSystem.machine_step hprog he).2
  exact ⟨trace_congr fun k hk => (hat k hk).1, trace_congr fun k hk => (hat k hk).2⟩

/-- No executed instruction is a trap. -/
theorem SeqSystem.not_trap_of_run {s : SeqSystem μ} {n : ℕ} {h : Machine μ}
    (hrun : s.machine.run prog (fun _ => M) n = some h) {k : ℕ} (hk : k < n) :
    (((s.run imem (memoryResponder M) k).arch.decoded imem).trap) = false := by
  obtain ⟨hk', e, hprev, he⟩ := Machine.exists_effect_of_lt hrun hk
  obtain rfl := SeqSystem.machine_run hprog hprev
  obtain ⟨o, ho, -⟩ := Arch.effect_eq_some he
  exact (Arch.decoded_trap imem _).trans (hprog _ o ho).trap

end

/-! ### The pipeline -/

/-- A hazard costs at most two cycles: a taken transfer is no load. -/
theorem Arch.delay_le (imem : InstructionMemory) (a a' : Arch) : a.delay imem a' ≤ 2 := by
  rw [Arch.delay]
  cases ht : a.taken imem with
  | true => simp [Arch.loadUse_of_taken ht]
  | false =>
      have := Bool.toNat_le ((a.decoded imem).loadUse (a'.decoded imem))
      simp only [Bool.toNat_false]
      omega

/-- The PC of the instruction in EX. -/
theorem CpuTop.InEx.pc_eq {imem : InstructionMemory} {s : CpuTop} {a : Arch}
    (h : s.InEx (a.decoded imem)) : s.idExQ.pc = a.pc := by
  obtain ⟨v1, v2, hv⟩ := h
  rw [hv]
  rfl

/-- The core runs the instruction memory as the program `prog`: whenever the RV32I machine gets to
instruction `n` of that program, so does the core, with the same state and the same writes. -/
theorem RunsAs.attached {μ : Type*} {imem : InstructionMemory} {prog : Word → Word}
    (hprog : RunsAs imem prog) (M : Memory μ) (regs : Registers) (m : μ) (d : Word)
    (idle : ℕ → Word) {n : ℕ} {h : Machine μ}
    (hrun : (⟨⟨0#32, regs.file⟩, m⟩ : Machine μ).run prog (fun _ => M) n = some h) :
    let start : Attached μ := ⟨outOfReset imem regs, m, d⟩
    let machine : Machine μ := ⟨⟨0#32, regs.file⟩, m⟩
    let core := Clocked.run (Attached.step imem (memoryResponder M)) start idle
    ∃ c, n + 2 ≤ c ∧ c ≤ 3 * n + 2 ∧ (core c).cpu.completes = true ∧
      (core c).cpu.idExQ.pc = h.hart.pc ∧ (core c).mem = h.mem ∧
      (core (c + 1)).cpu.registers.file = h.hart.regs ∧
      Attached.regWrites imem (memoryResponder M) start idle (c + 1)
        = machine.regWrites prog (fun _ => M) n ∧
      (Attached.busWrites imem (memoryResponder M) start idle c).map BusWrite.store
        = machine.stores prog (fun _ => M) n := by
  intro start machine core
  let r : SeqSystem μ := ⟨⟨0#32, regs⟩, m⟩
  let t : Timed (SeqSystem μ) := ⟨r, 2⟩
  have hrun' : r.machine.run prog (fun _ => M) n = some h := hrun
  have hR := attached_refines imem (memoryResponder M)
  have hstart : AttachedDue imem start r 2 := ⟨due_outOfReset imem regs d, rfl⟩
  have hstate := timed_state_eq imem (memoryResponder M) r idle 2
  have htime := hR.at_due idle t hstart (n := n) fun k hk => by
    rw [hstate]
    exact SeqSystem.not_trap_of_run hprog hrun' hk
  have hdue := htime.rel_done rfl
  rw [hstate] at hdue
  have hdelay : ∀ r r' : SeqSystem μ, r.arch.delay imem r'.arch ≤ 2 := fun r r' =>
    r.arch.delay_le imem r'.arch
  have hlow : 2 + n ≤ _ := Timed.add_le_due (fun r (_ : Word) => r.step imem (memoryResponder M))
    (fun r r' => r.arch.delay imem r'.arch) idle t n
  have hhigh : _ ≤ 2 + n * 3 := Timed.due_le
    (fun r (_ : Word) => r.step imem (memoryResponder M)) hdelay idle t n
  obtain ⟨hregs, hstores⟩ := SeqSystem.machine_writes hprog hrun'
  obtain rfl := SeqSystem.machine_run hprog hrun'
  refine ⟨_, ?_, ?_, hdue.1.completes_iff.mpr rfl, (hdue.1.execute.1.inEx rfl).pc_eq, hdue.2, ?_,
    ?_, ?_⟩
  · omega
  · omega
  · exact congrArg Registers.file hdue.1.execute.1.registers_step
  · -- a register write shows one cycle after its instruction completes EX
    rw [Attached.regWrites, trace_succ_left]
    refine Eq.trans ?_ hregs
    exact hR.trace_eq idle t hstart (fun k => (core (k + 1)).regWrite)
      (fun k => (r.run imem (memoryResponder M) k).regWrite imem (memoryResponder M))
      (fun c r k h => h.regWrite_waiting (idle c))
      (fun c n h _ => (hstate n ▸ h).regWrite_commit (idle c)) _ n htime
  · refine Eq.trans ?_ hstores
    have hbus := hR.trace_eq idle t hstart (fun k => (core k).cpu.bus.write)
      (fun k => (r.run imem (memoryResponder M) k).arch.busWrite imem)
      (fun c r k h => h.1.busWrite_waiting)
      (fun c n h _ => (hstate n ▸ h).1.busWrite_commit) _ n htime
    rw [Attached.busWrites, show trace (fun k => (run (Attached.step imem (memoryResponder M)) start
      idle k).cpu.bus.write) _ = _ from hbus, trace_map]

/-- **The pipeline implements the RV32I machine.** The core is out of reset with any memory on its
bus. Whenever the RV32I machine, from address 0 with the same registers and memory, gets to
instruction `n`, the core completes that instruction in EX in a cycle `c` between `n + 2` and
`3 * n + 2`. It carries the machine's program counter, the memory is the machine's, and behind the
next edge so are the registers. The register writes and the stores so far are those of the first
`n` instructions, in order, and no others. -/
theorem attached_implements_rv32i {μ : Type*} (imem : InstructionMemory) (M : Memory μ)
    (regs : Registers) (m : μ) (d : Word) (idle : ℕ → Word) {n : ℕ} {h : Machine μ}
    (hrun : (⟨⟨0#32, regs.file⟩, m⟩ : Machine μ).run imem.at (fun _ => M) n = some h) :
    let start : Attached μ := ⟨outOfReset imem regs, m, d⟩
    let machine : Machine μ := ⟨⟨0#32, regs.file⟩, m⟩
    let core := Clocked.run (Attached.step imem (memoryResponder M)) start idle
    ∃ c, n + 2 ≤ c ∧ c ≤ 3 * n + 2 ∧ (core c).cpu.completes = true ∧
      (core c).cpu.idExQ.pc = h.hart.pc ∧ (core c).mem = h.mem ∧
      (core (c + 1)).cpu.registers.file = h.hart.regs ∧
      Attached.regWrites imem (memoryResponder M) start idle (c + 1)
        = machine.regWrites imem.at (fun _ => M) n ∧
      (Attached.busWrites imem (memoryResponder M) start idle c).map BusWrite.store
        = machine.stores imem.at (fun _ => M) n :=
  (runsAs_self imem).attached M regs m d idle hrun

/-- `addi x1, x0, 1` and then `sw x1, 0(x1)` everywhere, on a memory of words: by cycle 8 the core
has stored 1 at address 1. -/
theorem attached_implements_rv32i_store :
    let imem : InstructionMemory := fun a => if a = 0#13 then 0x00100093#32 else 0x0010A023#32
    let M : Memory (Word → Word) := ⟨fun m a _ _ => m a, fun m a _ v => Function.update m a v⟩
    let start : Attached (Word → Word) := ⟨outOfReset imem fun _ => 0#32, fun _ => 0#32, 0#32⟩
    ∃ c ≤ 8, (Attached.busWrites imem (memoryResponder M) start (fun _ => 0#32) c).map
      BusWrite.store = [(1#32, 4, 1#32)] := by
  intro imem M start
  let machine : Machine (Word → Word) :=
    ⟨⟨0#32, Registers.file fun _ => 0#32⟩, fun _ => 0#32⟩
  have hrun := (Option.some_get (show (machine.run imem.at (fun _ => M) 2).isSome = true by
    decide +kernel)).symm
  obtain ⟨c, -, hc, -, -, -, -, -, hstores⟩ :=
    attached_implements_rv32i imem M (fun _ => 0#32) (fun _ => 0#32) 0#32 (fun _ => 0#32) hrun
  refine ⟨c, hc, hstores.trans ?_⟩
  decide +kernel

end Rv32iPipeline
