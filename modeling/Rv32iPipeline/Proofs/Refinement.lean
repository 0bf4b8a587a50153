import Rv32iPipeline.Proofs.Simulation

/-!
# `Rv32iPipeline.Proofs.Refinement`: the pipeline refines the sequential machine

`Due imem s d a k` is the relation of `Simulation` with the number `k` of cycles until the
next instruction completes EX. `core_refines` is the one-cycle obligation of
`Clocked.Refines` for the bare core, with an arbitrary `DATA_IN`, and `attached_refines` is
the one for the core with a memory responder. The timing and halt results use the first,
this module's main result the second.

`pipeline_refines_sequential`: the register writes and the bus writes of any number of
cycles are prefixes of the writes of the sequential machine.
-/

set_option autoImplicit false

namespace Rv32iPipeline

open CpuTop Clocked

/-- The cycles until the next instruction completes EX. -/
def Phase.wait : Phase → Bool → ℕ
  | .refill, _ => 2
  | .decode, _ => 1
  | .execute, stall => stall.toNat

/-- The core is related to `a`, whose instruction completes EX in `k` cycles. -/
def Due (imem : InstructionMemory) (s : CpuTop) (d : Word) (a : Arch) (k : ℕ) : Prop :=
  ∃ ph, Sim imem s d a ph ∧ k = ph.wait s.stall

section
variable {imem : InstructionMemory} {s : CpuTop} {d : Word} {a : Arch} {k : ℕ}

/-- Out of reset the word at address 0 is in the output register of `IMEM`. -/
theorem sim_outOfReset (imem : InstructionMemory) (regs : Registers) (d : Word) :
    Sim imem (outOfReset imem regs) d ⟨0#32, regs⟩ .refill where
  front := ⟨rfl, rfl, rfl, rfl⟩
  inEx := Phase.noConfusion
  regs := nextRegisters_of_rfWe rfl d _
  op1 hu := absurd hu Bool.false_ne_true
  op2 hu := absurd hu Bool.false_ne_true
  wb hwe := absurd hwe Bool.false_ne_true
  noLink := Phase.noConfusion
  exMemTrap := rfl
  memWbTrap := rfl
  halt := rfl

/-- Out of reset the first instruction is two cycles from completing EX. -/
theorem due_outOfReset (imem : InstructionMemory) (regs : Registers) (d : Word) :
    Due imem (outOfReset imem regs) d ⟨0#32, regs⟩ 2 :=
  ⟨.refill, sim_outOfReset imem regs d, rfl⟩

/-- At zero cycles the instruction is in EX and does not stall. -/
theorem Due.execute (h : Due imem s d a 0) : Sim imem s d a .execute ∧ s.stall = false := by
  obtain ⟨ph, hsim, hk⟩ := h
  cases ph with
  | refill => exact absurd hk.symm (by simp [Phase.wait])
  | decode => exact absurd hk.symm (by simp [Phase.wait])
  | execute =>
      refine ⟨hsim, ?_⟩
      cases hs : s.stall with
      | false => rfl
      | true => simp [Phase.wait, hs] at hk

/-- EX is empty, or it holds the next instruction to complete it. -/
theorem Due.occupant (h : Due imem s d a k) :
    s.idExQ = IdEx.zero ∨ s.InEx (a.decoded imem) := by
  obtain ⟨ph, hsim, -⟩ := h
  cases ph with
  | refill => exact .inl hsim.front.1
  | decode => exact .inl hsim.front.1
  | execute => exact .inr (hsim.inEx rfl)

/-- While it waits, EX is empty or stalled. -/
theorem Due.waiting (h : Due imem s d a (k + 1)) : s.idExQ = IdEx.zero ∨ s.stall = true := by
  obtain ⟨ph, hsim, hk⟩ := h
  cases ph with
  | refill => exact .inl hsim.front.1
  | decode => exact .inl hsim.front.1
  | execute =>
      cases hs : s.stall with
      | false => simp [Phase.wait, hs] at hk
      | true => exact .inr rfl

/-! ### What a cycle puts out -/

/-- The write port of `Reg_File` is silent in a cycle behind an empty or stalled EX. -/
theorem rfWe_of_waiting (h : s.idExQ = IdEx.zero ∨ s.stall = true) (d : Word) :
    (s.step imem (CpuInput.run d)).exMemQ.rfWe = false := by
  show (s.nextExMem (CpuInput.run d)).rfWe = false
  rcases h with h | h
  · rw [CpuInput.run, nextExMem_of_not_stall (stall_of_idEx_zero h), h]
    rfl
  · rw [CpuInput.run, nextExMem_of_stall h]
    rfl

/-- A cycle that completes nothing leads to no register write. -/
theorem Due.regWrite_waiting (h : Due imem s d a (k + 1)) (d' : Word) :
    (s.step imem (CpuInput.run d)).regWrite d' DontCare.zero = [] := by
  simp [regWrite, rfWe_of_waiting h.waiting d]

/-- A cycle that completes nothing asserts no bus write. -/
theorem Due.iobusWe_waiting (h : Due imem s d a (k + 1)) : s.bus.iobusWe = false := by
  rcases h.waiting with h | h
  · simp [bus, h, IdEx.zero]
  · simp [bus, flushExMem_eq, h]

/-- A cycle that completes nothing writes nothing to the bus. -/
theorem Due.busWrite_waiting (h : Due imem s d a (k + 1)) : s.bus.write = [] := by
  rw [Bus.write, h.iobusWe_waiting]
  rfl

/-- The bus pins of the cycle that completes an instruction: its write request, and the
address, size and data of a load or store. -/
theorem Due.bus_commit (h : Due imem s d a 0) :
    s.bus.iobusWe = (a.decoded imem).memWe ∧ s.bus.iobusRden = (a.decoded imem).memRden ∧
      s.bus.memData = (a.decoded imem).memData ∧
      ((a.decoded imem).memWe = true ∨ (a.decoded imem).memRden = true →
        s.bus.dataAddress = a.aluResult imem) ∧
      ((a.decoded imem).memWe = true → s.bus.dataOut = (a.decoded imem).rs2) := by
  obtain ⟨hsim, hs⟩ := h.execute
  obtain ⟨v1, v2, hv⟩ := hsim.inEx rfl
  have hwe : s.idExQ.memWe = (a.decoded imem).memWe := by rw [hv]
  have hrden : s.idExQ.memRden = (a.decoded imem).memRden := by rw [hv]
  refine ⟨?_, hrden, ?_, ?_, ?_⟩
  · simp [bus, flushExMem_eq, hs, hwe]
  · show s.idExQ.memSize ++ BitVec.ofBool s.idExQ.memSign = _
    rw [hv]
    rfl
  · intro hreq
    rw [← hwe, ← hrden] at hreq
    show s.idExQ.aluResult s.realRs1 s.realRs2 = _
    rw [hsim.coherent.aluResult_congr (hsim.realRs1_eq hs) (hsim.realRs2_eq hs) (Or.inr hreq), hv]
    rfl
  · intro hstore
    -- a store uses port 2
    cases hu : s.idExQ.rs2Used with
    | true => exact hsim.realRs2_eq hs hu
    | false =>
        have := (hsim.coherent.rs2Unused hu).2.1
        rw [hwe, hstore] at this
        exact absurd this.symm Bool.false_ne_true

/-- The bus write of the cycle that completes an instruction is the instruction's. -/
theorem Due.busWrite_commit (h : Due imem s d a 0) : s.bus.write = a.busWrite imem := by
  obtain ⟨hwe, -, hmd, haddr, hout⟩ := h.bus_commit
  rw [Bus.write, Arch.busWrite, hwe]
  split
  · rename_i hstore
    rw [haddr (Or.inl hstore), hout hstore, hmd]
  · rfl

/-- The register write of the cycle after a completion is the instruction's. -/
theorem Due.regWrite_commit (h : Due imem s d a 0) (d' : Word) :
    (s.step imem (CpuInput.run d)).regWrite d' DontCare.zero = a.regWrite imem d' := by
  obtain ⟨hsim, hs⟩ := h.execute
  have hexMem : (s.step imem (CpuInput.run d)).exMemQ = exMemD s.idExQ s.aluResult d :=
    nextExMem_of_not_stall hs d DontCare.zero
  rw [regWrite, CpuTop.writeData, hexMem, hsim.result_eq hs d']
  obtain ⟨v1, v2, hv⟩ := hsim.inEx rfl
  rw [hv]
  rfl

/-! ### The one-cycle obligations -/

/-- A jump or a taken branch is no load, so nothing is lost to a load-use stall. -/
theorem Arch.loadUse_of_taken {a : Arch} (ht : a.taken imem = true) (next : IdEx) :
    (a.decoded imem).loadUse next = false := by
  cases hrden : (a.decoded imem).memRden with
  | false => simp [IdEx.loadUse, hrden]
  | true =>
      obtain ⟨-, -, -, hb, hj, hjr, -⟩ := (a.decoded_coherent imem).load hrden
      exact absurd ht (by simp [Arch.taken, IdEx.taken, hb, hj, hjr])

/-- The core refines the sequential machine, for any `DATA_IN` stream: a load takes the
value on `DATA_IN` in the cycle after it completes EX. -/
theorem core_refines (imem : InstructionMemory) :
    Refines (fun s d => s.step imem (CpuInput.run d)) (Arch.step imem) (Arch.delay imem)
      (fun a => (a.decoded imem).trap = false) (Due imem) where
  wait := by
    rintro s d a k ⟨ph, hsim, hk⟩ d'
    cases ph with
    -- two cycles from EX, one cycle from EX, and a stall in EX
    | refill =>
        refine ⟨.decode, hsim.refill d', ?_⟩
        simp only [Phase.wait] at hk ⊢
        omega
    | decode =>
        obtain ⟨hsim', hs⟩ := hsim.decode d'
        refine ⟨.execute, hsim', ?_⟩
        simp only [Phase.wait] at hk
        rw [hs, show k = 0 by omega]
        rfl
    | execute =>
        cases hs : s.stall with
        | false => simp [Phase.wait, hs] at hk
        | true =>
            obtain ⟨hsim', hs'⟩ := hsim.stalled hs d'
            refine ⟨.execute, hsim', ?_⟩
            rw [hs, Phase.wait, Bool.toNat_true] at hk
            rw [hs', show k = 0 by omega]
            rfl
  commit := by
    intro s d a h htrap d'
    obtain ⟨hsim, hs⟩ := h.execute
    have htrap' : s.idExQ.trap = false := hsim.trap_eq.trans htrap
    cases ht : a.taken imem with
    -- a taken transfer costs the refill, any other instruction at most a stall
    | true =>
        refine ⟨.refill, hsim.commit_taken hs ht htrap' d', ?_⟩
        rw [Arch.delay, ht, Arch.loadUse_of_taken ht]
        rfl
    | false =>
        obtain ⟨hsim', hs'⟩ := hsim.commit_next hs ht htrap' d'
        refine ⟨.execute, hsim', ?_⟩
        rw [Arch.delay, ht, hs']
        simp [Phase.wait]

/-- An instruction that is no load does not read the bus answer. -/
theorem Arch.result_congr_load {a : Arch} (h : (a.decoded imem).memRden = false)
    (load load' : Word) : a.result imem load = a.result imem load' := by
  have hne : (a.decoded imem).rfSel ≠ wbDataIn := fun hc => by
    have hload := (a.decoded_coherent imem).dataIn hc
    rw [h] at hload
    exact Bool.false_ne_true hload
  exact fourToOneMux_congr_c hne

end

/-! ### With a responder on the bus -/

section
variable {μ : Type*} (imem : InstructionMemory) (resp : Responder μ)

/-- The relation of the core with a responder: both machines have moved the responder to
the same state. -/
def AttachedDue (s : Attached μ) (r : SeqSystem μ) (k : ℕ) : Prop :=
  Due imem s.cpu s.dataIn r.arch k ∧ s.mem = r.mem

variable {imem resp}

/-- In the cycle after a completion, `DATA_IN` is what a load of the sequential machine
gets. -/
theorem AttachedDue.dataIn_commit {s : Attached μ} {r : SeqSystem μ}
    (h : AttachedDue imem s r 0) (hload : (r.arch.decoded imem).memRden = true) (idle : Word) :
    (s.step imem resp idle).dataIn = r.load imem resp := by
  obtain ⟨-, hrden, hmd, haddr, -⟩ := h.1.bus_commit
  -- the request carries the address and size of the load, to a responder in the same state
  rw [Attached.step, SeqSystem.load, hrden, if_pos hload, h.2, hmd, haddr (Or.inr hload)]

/-- In the cycle of a completion both machines move the responder the same way. -/
theorem AttachedDue.mem_commit {s : Attached μ} {r : SeqSystem μ}
    (h : AttachedDue imem s r 0) (idle : Word) :
    (s.step imem resp idle).mem = (r.step imem resp).mem := by
  obtain ⟨hwe, -, hmd, haddr, hout⟩ := h.1.bus_commit
  rw [Attached.step, SeqSystem.step, hwe, h.2]
  split
  · rename_i hstore
    rw [hmd, haddr (Or.inl hstore), hout hstore]
  · rfl

/-- The write-back value of the sequential machine is the one with `DATA_IN` of the next
cycle as the load. -/
theorem AttachedDue.result_commit {s : Attached μ} {r : SeqSystem μ}
    (h : AttachedDue imem s r 0) (idle : Word) :
    r.arch.result imem (s.step imem resp idle).dataIn
      = r.arch.result imem (r.load imem resp) := by
  cases hload : (r.arch.decoded imem).memRden with
  | true => rw [h.dataIn_commit hload]
  | false => exact Arch.result_congr_load hload _ _

/-- A cycle that completes nothing leads to no register write. -/
theorem AttachedDue.regWrite_waiting {s : Attached μ} {r : SeqSystem μ} {k : ℕ}
    (h : AttachedDue imem s r (k + 1)) (idle : Word) : (s.step imem resp idle).regWrite = [] :=
  h.1.regWrite_waiting _

/-- The register write of the cycle after a completion is the instruction's. -/
theorem AttachedDue.regWrite_commit {s : Attached μ} {r : SeqSystem μ}
    (h : AttachedDue imem s r 0) (idle : Word) :
    (s.step imem resp idle).regWrite = r.regWrite imem resp := by
  rw [SeqSystem.regWrite, Arch.regWrite, ← h.result_commit idle]
  exact h.1.regWrite_commit _

variable (imem resp)

/-- The core with a responder refines the sequential machine with the same responder. -/
theorem attached_refines :
    Refines (Attached.step imem resp) (fun r _ => SeqSystem.step imem resp r)
      (fun r r' => r.arch.delay imem r'.arch) (fun r => (r.arch.decoded imem).trap = false)
      (fun s (_ : Word) r k => AttachedDue imem s r k) where
  wait := by
    intro s i r k h _
    refine ⟨(core_refines imem).wait h.1 _, ?_⟩
    rw [Attached.step, h.1.iobusWe_waiting]
    exact h.2
  commit := by
    intro s i r h htrap _
    -- the load of the bare core is the responder's answer
    have harch : r.arch.step imem (s.step imem resp i).dataIn = (r.step imem resp).arch := by
      rw [Arch.step, h.result_commit]
      rfl
    refine ⟨?_, h.mem_commit i⟩
    have := (core_refines imem).commit h.1 htrap (s.step imem resp i).dataIn
    rwa [harch] at this

/-- The schedule of the core with a responder: its reference states are the run of the
sequential machine. -/
theorem timed_state_eq (r : SeqSystem μ) (idle : ℕ → Word) (k n : ℕ) :
    (Timed.run (fun r (_ : Word) => SeqSystem.step imem resp r)
      (fun r r' => r.arch.delay imem r'.arch) idle ⟨r, k⟩ n).state = r.run imem resp n := by
  induction n with
  | zero => rfl
  | succ n ih =>
      rw [Timed.run_succ, Timed.next, ih]
      rfl

/-- No unit of the schedule is a trap, on a path of implemented instructions. -/
theorem timed_not_trap {r : SeqSystem μ} (idle : ℕ → Word) (k n : ℕ)
    (h : let ir := imem.at (r.run imem resp n).arch.pc
      isImplemented ir = true ∨ isFence ir = true) :
    ((Timed.run (fun r (_ : Word) => SeqSystem.step imem resp r)
      (fun r r' => r.arch.delay imem r'.arch) idle ⟨r, k⟩ n).state.arch.decoded imem).trap
        = false := by
  rw [timed_state_eq]
  exact idExD_trap_of_implemented _ _ h

/-- **The pipeline refines sequential execution.** The core is out of reset with a memory
responder attached, and every word on the executed path is an implemented instruction or a
`FENCE`. Then the register writes of the first `c` cycles, and the bus writes of the first
`c` cycles, are prefixes of those of the sequential machine. -/
theorem pipeline_refines_sequential (regs : Registers) (m : μ) (d : Word) (idle : ℕ → Word)
    (hpath : ∀ n, let ir := imem.at (SeqSystem.run imem resp ⟨⟨0#32, regs⟩, m⟩ n).arch.pc
      isImplemented ir = true ∨ isFence ir = true) (c : ℕ) :
    Attached.regWrites imem resp ⟨CpuTop.outOfReset imem regs, m, d⟩ idle c
        <+: SeqSystem.regWrites imem resp ⟨⟨0#32, regs⟩, m⟩ c ∧
      Attached.busWrites imem resp ⟨CpuTop.outOfReset imem regs, m, d⟩ idle c
        <+: SeqSystem.busWrites imem resp ⟨⟨0#32, regs⟩, m⟩ c := by
  have hR := attached_refines imem resp
  have hstart : AttachedDue imem (⟨CpuTop.outOfReset imem regs, m, d⟩ : Attached μ)
      ⟨⟨0#32, regs⟩, m⟩ 2 := ⟨due_outOfReset imem regs d, rfl⟩
  have hok := fun n => timed_not_trap imem resp idle 2 n (hpath n)
  let core := run (Attached.step imem resp) ⟨CpuTop.outOfReset imem regs, m, d⟩ idle
  let t : Timed (SeqSystem μ) := ⟨⟨⟨0#32, regs⟩, m⟩, 2⟩
  have hstate := timed_state_eq imem resp t.state idle 2
  constructor
  · -- a register write shows one cycle after its instruction completes EX
    cases c with
    | zero => exact List.prefix_rfl
    | succ c =>
        have hout := hR.trace_prefix idle t hstart hok (fun k => (core (k + 1)).regWrite)
          (fun n => (t.state.run imem resp n).regWrite imem resp)
          (fun c r k h => h.regWrite_waiting (idle c))
          (fun c n h _ => (hstate n ▸ h).regWrite_commit (idle c)) c
        rw [Attached.regWrites, trace_succ_left]
        -- nothing is in MEM in the first cycle
        exact hout.trans (Clocked.trace_prefix _ (Nat.le_succ c))
  · exact hR.trace_prefix idle t hstart hok (fun k => (core k).cpu.bus.write)
      (fun n => (t.state.run imem resp n).arch.busWrite imem)
      (fun c r k h => h.1.busWrite_waiting)
      (fun c n h _ => (hstate n ▸ h).1.busWrite_commit) c

end

/-- `addi x1, x1, 1` at the even words and `sw x1, 0(x1)` at the odd ones, with a memory of
words attached: after eight cycles three of each have been done, and the sequential machine does
them too. -/
theorem pipeline_refines_sequential_count :
    let imem : InstructionMemory :=
      fun i => if i.getLsbD 0 then 0x0010A023#32 else 0x00108093#32
    let resp : Responder (Word → Word) :=
      ⟨fun m a _ => m a, fun m a _ v => Function.update m a v⟩
    let core : Attached (Word → Word) := ⟨outOfReset imem fun _ => 0#32, fun _ => 0#32, 0#32⟩
    let seq : SeqSystem (Word → Word) := ⟨⟨0#32, fun _ => 0#32⟩, fun _ => 0#32⟩
    let idle : ℕ → Word := fun _ => 0#32
    (core.regWrites imem resp idle 8 = [(1#5, 1#32), (1#5, 2#32), (1#5, 3#32)] ∧
        core.busWrites imem resp idle 8
          = [(1#32, 0b100#3, 1#32), (2#32, 0b100#3, 2#32), (3#32, 0b100#3, 3#32)]) ∧
      core.regWrites imem resp idle 8 <+: seq.regWrites imem resp 8 ∧
      core.busWrites imem resp idle 8 <+: seq.busWrites imem resp 8 := by
  intro imem resp core seq idle
  have hprog : ∀ pc, isImplemented (imem.at pc) = true := fun pc => by
    show isImplemented (if (pc.extractLsb' 2 13).getLsbD 0 then _ else _) = true
    split <;> decide
  exact ⟨by decide +kernel,
    pipeline_refines_sequential imem resp _ _ _ _ (fun n => .inl (hprog _)) 8⟩

end Rv32iPipeline
