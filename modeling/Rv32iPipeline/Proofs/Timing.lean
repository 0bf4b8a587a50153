import Rv32iPipeline.Proofs.Refinement
import Rv32iPipeline.Proofs.Reset

/-!
# `Rv32iPipeline.Proofs.Timing`: in which cycle each instruction completes EX

An instruction completes EX in a cycle that holds it there and does not stall. `execution`
is the executed path of the sequential machine with the schedule of the pipeline: two cycles
after reset the first instruction, and then one cycle each, plus `Arch.delay`.

`completion_cycles`: on a path without traps the completions of the core are exactly the
cycles of the schedule. `stall_once` and `flush_costs_two` are the local form of the cost
of a hazard, for any state.
-/

set_option autoImplicit false

namespace Rv32iPipeline

open CpuTop Clocked

/-- The run of the core with `RST` low. -/
def CpuTop.runFrom (imem : InstructionMemory) (s : CpuTop) (din : ℕ → Word) (c : ℕ) : CpuTop :=
  run (fun s d => s.step imem (CpuInput.run d)) s din c

theorem runFrom_add (imem : InstructionMemory) (s : CpuTop) (din : ℕ → Word) (m n : ℕ) :
    runFrom imem s din (m + n) = runFrom imem (runFrom imem s din m) (fun k => din (m + k)) n :=
  run_add _ _ _ _ _

/-- A property that every step with `RST` low keeps holds along the run. -/
theorem runFrom_invariant {I : CpuTop → Prop} {imem : InstructionMemory} {s : CpuTop} (h0 : I s)
    (hstep : ∀ s d, I s → I (s.step imem (CpuInput.run d))) (din : ℕ → Word) (n : ℕ) :
    I (runFrom imem s din n) := by
  have hrun : ∀ s k, I s → I (s.step imem (CpuInput.run (din k))) := fun s k => hstep s (din k)
  exact @run_invariant _ _ I (fun s d => s.step imem (CpuInput.run d)) s din h0 hrun n

/-- The executed path from address 0: the state before each instruction, and the cycle of
the pipeline in which it completes EX. A load takes `DATA_IN` of the cycle after that. -/
def execution (imem : InstructionMemory) (regs : Registers) (din : ℕ → Word) (n : ℕ) :
    Timed Arch :=
  Timed.run (Arch.step imem) (Arch.delay imem) din ⟨⟨0#32, regs⟩, 2⟩ n

/-- An instruction is in EX in this cycle and leaves it. -/
def CpuTop.completes (s : CpuTop) : Bool := s.idExQ != IdEx.zero && !s.stall

section
variable {imem : InstructionMemory} {s : CpuTop} {d : Word} {a : Arch} {k : ℕ}

/-! ### Occupied and empty slots -/

/-- A decoded word never looks like an empty slot: only `LUI` has name `LUI`, and it writes a
register. -/
theorem rfWe_of_lui {pc ir : Word} {regs : Registers} {x : DontCare}
    (h : (idExD (ifIdD pc ir) regs x).instruction = .lui) :
    (idExD (ifIdD pc ir) regs x).rfWe = true := by
  have hop : opcodeOf ir = 0b0110111#7 := by
    have hname : decodeInstrName ir = .lui := h
    unfold decodeInstrName at hname
    split at hname
    · cases hname
    · assumption
    -- no other opcode has an instruction of that name
    all_goals
      first
      | cases hname
      | (split at hname <;> first | cases hname | (split at hname <;> cases hname))
  show (controlUnitDecoder (opcodeOf ir) (funct3Of ir) (ir.getLsbD 30) x).rfWe = true
  rw [hop]
  rfl

/-- An instruction in EX is never taken for an empty slot. -/
theorem CpuTop.InEx.ne_zero (h : s.InEx (a.decoded imem)) : s.idExQ ≠ IdEx.zero := by
  intro hz
  obtain ⟨v1, v2, hv⟩ := h
  rw [hv] at hz
  have hwe : (a.decoded imem).rfWe = true := rfWe_of_lui (congrArg IdEx.instruction hz)
  have hwe' : (a.decoded imem).rfWe = false := congrArg IdEx.rfWe hz
  rw [hwe] at hwe'
  exact Bool.noConfusion hwe'

/-- The next instruction completes EX in this cycle exactly when no cycles are left. -/
theorem Due.completes_iff (h : Due imem s d a k) : s.completes = true ↔ k = 0 := by
  cases k with
  | zero =>
      obtain ⟨hsim, hs⟩ := h.execute
      have hne := (hsim.inEx rfl).ne_zero
      simp [completes, hs, hne]
  | succ k =>
      rcases h.waiting with hz | hs
      · simp [completes, hz]
      · simp [completes, hs]

/-! ### The cost of a hazard -/

/-- A load-use stall lasts one cycle, and the pipeline does not flush in it. -/
theorem stall_once (imem : InstructionMemory) (d : Word) (x : DontCare) (h : s.stall = true) :
    s.flush = false ∧ (s.step imem ⟨false, d, x⟩).stall = false := by
  -- the stall itself empties EX/MEM
  refine ⟨flush_of_stall h, stall_of_exMem_zero ?_⟩
  rw [step_stall imem d x h]
  rfl

/-- A flush is followed by two cycles with an empty EX slot. -/
theorem flush_costs_two (imem : InstructionMemory) (d d' : Word) (h : s.flush = true) :
    (s.step imem (CpuInput.run d)).idExQ = IdEx.zero ∧
      ((s.step imem (CpuInput.run d)).step imem (CpuInput.run d')).idExQ = IdEx.zero := by
  have hid : (s.step imem (CpuInput.run d)).idExQ = IdEx.zero := by
    rw [CpuInput.run, step_flush imem d _ h]
  have hif : (s.step imem (CpuInput.run d)).ifIdQ = IfId.zero := by
    rw [CpuInput.run, step_flush imem d _ h]
  refine ⟨hid, ?_⟩
  -- the cleared IF/ID decodes to an empty slot
  have hnext := nextIdEx_of_idEx_zero hid d' DontCare.zero
  rw [hif, idExD_zero] at hnext
  exact hnext

end

/-! ### The schedule of a run -/

section
variable (imem : InstructionMemory) (regs : Registers) (din : ℕ → Word)

/-- The schedule as a recurrence. -/
theorem execution_due_succ (n : ℕ) :
    (execution imem regs din (n + 1)).due
      = (execution imem regs din n).due + 1
        + 2 * ((execution imem regs din n).state.taken imem).toNat
        + (((execution imem regs din n).state.decoded imem).loadUse
            ((execution imem regs din (n + 1)).state.decoded imem)).toNat :=
  (Nat.add_assoc _ _ _).symm

/-- A transfer that is taken and a load-use stall never combine. -/
theorem execution_hazards_exclusive (n : ℕ) :
    (execution imem regs din n).state.taken imem = true →
      ((execution imem regs din n).state.decoded imem).loadUse
        ((execution imem regs din (n + 1)).state.decoded imem) = false :=
  fun ht => Arch.loadUse_of_taken ht _

/-- In cycle `due n` instruction `n` completes EX, if no earlier one is a trap. -/
theorem onTime_execution {n : ℕ}
    (hok : ∀ m < n, ((execution imem regs din m).state.decoded imem).trap = false) :
    OnTime (fun s d => s.step imem (CpuInput.run d)) (fun a => (a.decoded imem).trap = false)
      (Due imem) (outOfReset imem regs) (execution imem regs din) din
      (execution imem regs din n).due n :=
  (core_refines imem).at_due din ⟨⟨0#32, regs⟩, 2⟩ (due_outOfReset imem regs (din 0)) hok

/-- The state of the core in the cycle `due n`. -/
theorem due_execution {n : ℕ}
    (hok : ∀ m < n, ((execution imem regs din m).state.decoded imem).trap = false) :
    Due imem (runFrom imem (outOfReset imem regs) din (execution imem regs din n).due)
      (din (execution imem regs din n).due) (execution imem regs din n).state 0 :=
  (onTime_execution imem regs din hok).rel_done rfl

/-- Up to the cycle `due n` EX holds nothing but the instructions of the path up to `n`. -/
theorem occupant_execution {n : ℕ}
    (hok : ∀ m < n, ((execution imem regs din m).state.decoded imem).trap = false) {c : ℕ}
    (hc : c ≤ (execution imem regs din n).due) :
    (runFrom imem (outOfReset imem regs) din c).idExQ = IdEx.zero ∨ ∃ m ≤ n,
      (runFrom imem (outOfReset imem regs) din c).InEx
        ((execution imem regs din m).state.decoded imem) := by
  obtain ⟨m, hmn, hm⟩ := (core_refines imem).onTime_of_le din ⟨⟨0#32, regs⟩, 2⟩
    (due_outOfReset imem regs (din 0)) hok hc
  exact hm.rel.occupant.imp_right fun hin => ⟨m, hmn, hin⟩

/-- The register writes of the core behind the completions are those of the instructions. -/
theorem regWrites_execution {n : ℕ}
    (hok : ∀ m < n, ((execution imem regs din m).state.decoded imem).trap = false) :
    trace (fun k => (runFrom imem (outOfReset imem regs) din (k + 1)).regWrite (din (k + 1))
        DontCare.zero) (execution imem regs din n).due
      = trace (fun k => (execution imem regs din k).state.regWrite imem
          (din ((execution imem regs din k).due + 1))) n :=
  (core_refines imem).trace_eq din ⟨⟨0#32, regs⟩, 2⟩ (due_outOfReset imem regs (din 0)) _ _
    (fun c _ _ hr => hr.regWrite_waiting (din (c + 1)))
    (fun c _ hr hc => (hr.regWrite_commit (din (c + 1))).trans (by rw [hc]; rfl))
    _ n (onTime_execution imem regs din hok)

/-- The bus writes of the core before a completion are those of the instructions before. -/
theorem busWrites_execution {n : ℕ}
    (hok : ∀ m < n, ((execution imem regs din m).state.decoded imem).trap = false) :
    trace (fun k => (runFrom imem (outOfReset imem regs) din k).bus.write)
        (execution imem regs din n).due
      = trace (fun k => (execution imem regs din k).state.busWrite imem) n :=
  (core_refines imem).trace_eq din ⟨⟨0#32, regs⟩, 2⟩ (due_outOfReset imem regs (din 0)) _ _
    (fun _ _ _ hr => hr.busWrite_waiting) (fun _ _ hr _ => hr.busWrite_commit)
    _ n (onTime_execution imem regs din hok)

/-- The completions of the core are the cycles of the schedule. -/
theorem completes_iff (hok : ∀ n, ((execution imem regs din n).state.decoded imem).trap = false)
    (c : ℕ) :
    (runFrom imem (outOfReset imem regs) din c).completes = true
      ↔ ∃ n, c = (execution imem regs din n).due := by
  constructor
  · intro hc
    rcases (core_refines imem).onTime din ⟨⟨0#32, regs⟩, 2⟩ (due_outOfReset imem regs (din 0)) c
      with ⟨n, hn⟩ | ⟨n, -, hnot, -⟩
    · -- the cycle belongs to unit `n`, and a completing cycle is its last
      have hk := (Due.completes_iff hn.rel).mp hc
      exact ⟨n, Nat.le_antisymm hn.le (Nat.le_of_sub_eq_zero hk)⟩
    · exact absurd (hok n) hnot
  · rintro ⟨n, rfl⟩
    exact (due_execution imem regs din fun m _ => hok m).completes_iff.mpr rfl

end

/-- **Exact timing of every run.** `RST` has been high for two or more edges, without
`halt_sig`. On a path of implemented instructions and `FENCE`s, instruction `n` completes EX
in exactly the cycle `E n`, with `E 0 = 2` and
`E (n + 1) = E n + 1 + 2 * taken n + loadUse n`. A load-use stall lasts one cycle, stalls and
flushes never combine, and neither repeats in the next cycle. -/
theorem completion_cycles (imem : InstructionMemory) {s : CpuTop} (hh : s.haltSig = false)
    (rin : ℕ → Word) {k : ℕ} (hk : 2 ≤ k) (din : ℕ → Word)
    (hpath : ∀ n,
      let ir := imem.at (execution imem (holdReset imem s rin k).registers din n).state.pc
      isImplemented ir = true ∨ isFence ir = true) :
    let core := runFrom imem (holdReset imem s rin k) din
    let path := execution imem (holdReset imem s rin k).registers din
    let E := fun n => (path n).due
    let t := fun n => (path n).state.taken imem
    let l := fun n => ((path n).state.decoded imem).loadUse ((path (n + 1)).state.decoded imem)
    (E 0 = 2 ∧ ∀ n, E (n + 1) = E n + 1 + 2 * (t n).toNat + (l n).toNat) ∧
      (∀ n, (core (E n)).InEx ((path n).state.decoded imem)) ∧
      (∀ c, (core c).completes = true ↔ ∃ n, c = E n) ∧
      (∀ n, t n = true → l n = false) ∧
      (∀ c, (core c).stall = true → (core c).flush = false ∧ (core (c + 1)).stall = false) ∧
      ∀ c, (core c).flush = true →
        (core (c + 1)).idExQ = IdEx.zero ∧ (core (c + 2)).idExQ = IdEx.zero := by
  have hreset := holdReset_outOfReset imem hh rin hk
  have hregs : outOfReset imem (holdReset imem s rin k).registers = holdReset imem s rin k := by
    rw [hreset]
    rfl
  -- no instruction of the path is a trap, so the schedule never ends
  have htrap : ∀ n, ((execution imem (holdReset imem s rin k).registers din n).state.decoded
      imem).trap = false := fun n => idExD_trap_of_implemented _ _ (hpath n)
  intro core path E t l
  refine ⟨⟨rfl, execution_due_succ imem _ din⟩, fun n => ?_, fun c => ?_,
    execution_hazards_exclusive imem _ din, fun c hs => stall_once imem (din c) _ hs,
    fun c hf => flush_costs_two imem (din c) (din (c + 1)) hf⟩
  · have hdue := due_execution imem (holdReset imem s rin k).registers din
      (n := n) fun m _ => htrap m
    rw [hregs] at hdue
    exact hdue.execute.1.inEx rfl
  · have hiff := completes_iff imem (holdReset imem s rin k).registers din htrap c
    rw [hregs] at hiff
    exact hiff

/-- `lw x1, 0(x1)` everywhere: from cycle 2 on the core completes an instruction in every second
cycle, and in no other. -/
theorem completion_cycles_load_chain :
    let imem : InstructionMemory := fun _ => 0x0000A083#32
    let s := holdReset imem (outOfReset imem fun _ => 0#32) (fun _ => 0#32) 2
    ∀ c, (runFrom imem s (fun _ => 0#32) c).completes = true ↔ ∃ n, c = 2 + 2 * n := by
  intro imem s c
  have hword : isImplemented 0x0000A083#32 = true := by decide
  have hload : ∀ a b : Arch, (a.decoded imem).loadUse (b.decoded imem) = true := fun _ _ => by
    simp only [IdEx.loadUse, Arch.decoded, idExD, InstructionMemory.at, ifIdD, imem]
    decide
  have htaken : ∀ a : Arch, a.taken imem = false := fun a => (Bool.not_eq_true _).mp fun ht =>
    Bool.false_ne_true ((Arch.loadUse_of_taken ht (a.decoded imem)).symm.trans (hload a a))
  obtain ⟨⟨hfirst, hnext⟩, -, hcompletes, -⟩ :=
    completion_cycles imem (s := outOfReset imem fun _ => 0#32) rfl (fun _ => 0#32)
      (Nat.le_refl 2) (fun _ => 0#32) fun _ => .inl hword
  simp only [htaken, hload] at hnext
  -- each load waits for the one before it
  have hdue : ∀ n, (execution imem s.registers (fun _ => 0#32) n).due = 2 + 2 * n := fun n => by
    induction n with
    | zero => exact hfirst
    | succ n ih => rw [hnext n, ih]; rfl
  refine (hcompletes c).trans (exists_congr fun n => ?_)
  show c = (execution imem s.registers (fun _ => 0#32) n).due ↔ _
  rw [hdue n]

end Rv32iPipeline
