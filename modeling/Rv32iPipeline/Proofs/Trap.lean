import Mathlib.Data.Nat.Find
import Rv32iPipeline.Proofs.SystemRun

/-!
# `Rv32iPipeline.Proofs.Trap`: what runs behind a trap

The word fetched in the cycle of a trap reaches EX three cycles later (`Draining`), where
nothing stops it. If it is itself a trap, the next word of the sequence follows it in the same
way. If not, EX is idle from then on (`Idle`).

* `precise_iff`: for the core under any `DATA_IN`, nothing behind the trap acts exactly when
  every word of this chain is harmless.
* `trap_precise_iff`: the same in the system with its data bus, from any reachable state.
-/

set_option autoImplicit false

namespace Rv32iPipeline

open CpuTop Clocked

/-- The word at the program counter, with these registers, does nothing an observer of the
registers, the bus and the fetch could see. -/
def Arch.harmless (imem : InstructionMemory) (a : Arch) : Bool :=
  writesNothing (imem.at a.pc) && !a.taken imem

/-- Nothing in EX acts on the bus or on the fetch in this cycle. -/
def CpuTop.QuietEx (s : CpuTop) : Prop := s.bus.iobusWe = false ∧ s.pcSel = pcPc4

/-- The address of the `k`-th word fetched behind a trap in EX. -/
def CpuTop.shadowPc (s : CpuTop) (k : ℕ) : Word := s.pcUsed + 4#32 + 4#32 * BitVec.ofNat 32 k

section
variable {imem : InstructionMemory} {s : CpuTop} {p : Word} {regs : Registers}

theorem shadowPc_zero (s : CpuTop) : s.shadowPc 0 = s.pcUsed + 4#32 := by
  simp [shadowPc]

theorem shadowPc_succ (s : CpuTop) (k : ℕ) : s.shadowPc (k + 1) = s.shadowPc k + 4#32 := by
  rw [shadowPc, shadowPc, BitVec.ofNat_add, BitVec.mul_add, BitVec.mul_one,
    BitVec.add_assoc (s.pcUsed + 4#32)]

/-! ### One cycle -/

/-- An empty EX slot is quiet. -/
theorem quietEx_of_idEx_zero (h : s.idExQ = IdEx.zero) : s.QuietEx := by
  simp [QuietEx, bus, pcSel, h, IdEx.zero, IdEx.pcSel, pcDecoder]

/-- `PC_SEL` leaves `PC + 4` exactly for a jump or a taken branch. -/
theorem CpuTop.Wf.pcSel_iff (h : s.Wf) :
    s.pcSel = pcPc4 ↔ s.idExQ.taken s.realRs1 s.realRs2 = false := by
  constructor
  · intro hsel
    by_contra ht
    exact h.coherent.pcSel_of_taken (Bool.not_eq_false _ ▸ ht) hsel
  · exact fun ht => IdEx.Coherent.pcSel_of_not_taken ht

/-- A trap in EX is quiet. -/
theorem CpuTop.Wf.quietEx_of_trap (h : s.Wf) (ht : s.idExQ.trap = true) : s.QuietEx := by
  refine ⟨?_, h.pcSel_iff.mpr (h.taken_of_trap ht _ _)⟩
  simp [bus, (h.coherent.trap ht).2.1]

/-- Without a pending write behind it, EX sees what it captured. -/
theorem forwarded_of_quiet (hmem : s.exMemQ.rfWe = false) (hwb : s.memWbQ.rfWe = false)
    (adr : BitVec 5) (used : Bool) (v : Word) : s.forwarded adr used v = v := by
  simp [forwarded, forwardSel, hmem, hwb]

/-- No register write is performed in a cycle without a destination. -/
theorem CpuTop.regWrite_eq_nil (s : CpuTop) (d : Word) (x : DontCare) :
    s.regWrite d x = [] ↔ (s.exMemQ.rfWe && s.exMemQ.regWriteAddr != 0#5) = false := by
  rw [regWrite]
  cases s.exMemQ.rfWe && s.exMemQ.regWriteAddr != 0#5 <;> simp

theorem Arch.regWrite_eq_nil (imem : InstructionMemory) (a : Arch) (load : Word) :
    a.regWrite imem load = []
      ↔ ((a.decoded imem).rfWe && (a.decoded imem).regWriteAddr != 0#5) = false := by
  rw [regWrite]
  cases (a.decoded imem).rfWe && (a.decoded imem).regWriteAddr != 0#5 <;> simp

/-- The shadow word in EX takes the decision of the sequential machine. -/
theorem CpuTop.Draining.taken_eq (h : Draining imem s p regs .shadow) (hwf : s.Wf) :
    s.idExQ.taken s.realRs1 s.realRs2 = (⟨p, regs⟩ : Arch).taken imem := by
  obtain ⟨-, hid, -, hhalt⟩ := h.front
  -- the halted MEM/WB forwards nothing
  have hwb := hwf.held (.inl hhalt)
  rw [CpuTop.realRs1_eq, CpuTop.realRs2_eq, forwarded_of_quiet h.rfWe hwb,
    forwarded_of_quiet h.rfWe hwb, hid]
  rfl

/-- The shadow word in EX does not stall, so it asks for its store at once. -/
theorem CpuTop.Draining.iobusWe_eq (h : Draining imem s p regs .shadow) :
    s.bus.iobusWe = ((⟨p, regs⟩ : Arch).decoded imem).memWe := by
  obtain ⟨-, hid, -, -⟩ := h.front
  simp [bus, flushExMem_eq, stall_of_exMem_zero h.rfWe, hid, Arch.decoded]

/-- The register write of the cycle after the shadow word is in EX is the word's. -/
theorem CpuTop.Draining.regWrite_iff (h : Draining imem s p regs .shadow) (d d' : Word) :
    (s.step imem (CpuInput.run d)).regWrite d' DontCare.zero = []
      ↔ (⟨p, regs⟩ : Arch).regWrite imem d' = [] := by
  obtain ⟨-, hid, -, -⟩ := h.front
  have hexMem : (s.step imem (CpuInput.run d)).exMemQ = exMemD s.idExQ s.aluResult d :=
    nextExMem_of_not_stall (stall_of_exMem_zero h.rfWe) d DontCare.zero
  rw [CpuTop.regWrite_eq_nil, Arch.regWrite_eq_nil, hexMem, hid]
  rfl

/-- EX is idle for good: the core is halted and only zero words follow. -/
structure CpuTop.Idle (s : CpuTop) : Prop where
  halt : s.haltSig = true
  ir : s.ir = 0#32
  ifId : ∃ p, s.ifIdQ = ifIdD p 0#32
  idEx : ∃ p regs, s.idExQ = idExD (ifIdD p 0#32) regs DontCare.zero
  exMem : (s.exMemQ.rfWe && s.exMemQ.regWriteAddr != 0#5) = false

/-- A zero word in EX asks for nothing. -/
theorem CpuTop.Idle.step_eq (h : s.Idle) (imem : InstructionMemory) (d : Word) :
    (s.step imem (CpuInput.run d)).Idle ∧ s.QuietEx := by
  obtain ⟨p, regs, hid⟩ := h.idEx
  obtain ⟨q, hif⟩ := h.ifId
  have hstall : s.stall = false := by
    rw [stall_eq, hid]
    simp [readsMemLoad, idExD, ifIdD, controlUnitDecoder, opcodeOf, DontCare.zero]
  have hflush : s.flush = false := by
    rw [flush, hid]
    simp [IdEx.taken, idExD, ifIdD, controlUnitDecoder, opcodeOf, DontCare.zero, Control.base]
  -- halted, so every slot moves on behind a zero word
  have hst := step_frozen imem d DontCare.zero hstall hflush (by simp [freeze, h.halt])
  refine ⟨?_, ?_, ?_⟩
  · rw [CpuInput.run, hst]
    refine ⟨?_, rfl, ⟨s.pcUsed, by simp only [h.ir]⟩, ⟨q, s.registers, by simp only [hif]⟩, ?_⟩
    · simp [nextHalt, h.halt]
    · simp only [hid]
      rfl
  · simp [bus, hid, idExD, ifIdD, controlUnitDecoder, opcodeOf, DontCare.zero]
  · simp [pcSel, hid, IdEx.pcSel, idExD, ifIdD, controlUnitDecoder, opcodeOf, DontCare.zero,
      pcDecoder]

theorem Arch.harmless_iff (imem : InstructionMemory) (a : Arch) (load : Word) :
    a.harmless imem = true ↔ (a.decoded imem).memWe = false ∧ a.regWrite imem load = [] ∧
      a.taken imem = false := by
  rw [harmless, Bool.and_eq_true, writesNothing_iff imem a load, Bool.not_eq_true', and_assoc]

/-- A harmless shadow word that is no trap leaves EX idle. -/
theorem CpuTop.Draining.idle (h : Draining imem s p regs .shadow) (hwf : s.Wf)
    (hharm : (⟨p, regs⟩ : Arch).harmless imem = true)
    (htrap : isTrap (imem.at p) = false) (d : Word) :
    (s.step imem (CpuInput.run d)).Idle := by
  obtain ⟨hif, hid, hir, hhalt⟩ := h.front
  obtain ⟨-, hrw, htaken⟩ := (Arch.harmless_iff imem _ d).mp hharm
  have htrap' : s.idExQ.trap = false := by
    rw [hid]
    exact (Arch.decoded_trap imem ⟨p, regs⟩).trans htrap
  have hflush : s.flush = false := by
    rw [flush, h.taken_eq hwf, htaken, htrap']
    simp
  have hst := step_frozen imem d DontCare.zero (stall_of_exMem_zero h.rfWe) hflush
    (by simp [freeze, hhalt])
  have hexMem := (h.regWrite_iff d d).mpr hrw
  rw [CpuTop.regWrite_eq_nil] at hexMem
  refine ⟨haltSig_step hhalt imem d, ?_, ⟨p, ?_⟩, ⟨p, s.registers, ?_⟩, hexMem⟩
  · rw [CpuInput.run, hst]
  · rw [CpuInput.run, hst]
    simp only [h.pcUsed, hir]
  · rw [CpuInput.run, hst]
    simp only [hif]

/-- The shadow word in EX is quiet exactly when it neither stores nor redirects the fetch. -/
theorem CpuTop.Draining.quietEx_iff (h : Draining imem s p regs .shadow) (hwf : s.Wf) :
    s.QuietEx ↔ ((⟨p, regs⟩ : Arch).decoded imem).memWe = false ∧
      (⟨p, regs⟩ : Arch).taken imem = false := by
  rw [QuietEx, h.iobusWe_eq, hwf.pcSel_iff, h.taken_eq hwf]

/-! ### The run -/

/-- A run with `RST` low keeps the invariant. -/
theorem CpuTop.Wf.runFrom (h : s.Wf) (imem : InstructionMemory) (din : ℕ → Word) (n : ℕ) :
    (runFrom imem s din n).Wf :=
  runFrom_invariant h (fun _ d hs => hs.step imem false d) din n

/-- The three cycles from a trap in EX to its shadow word in EX. -/
theorem CpuTop.Wf.trap_period (h : s.Wf) (ht : s.idExQ.trap = true) (din : ℕ → Word) :
    Draining imem (CpuTop.runFrom imem s din 3) (s.pcUsed + 4#32)
        (s.nextRegisters (din 0) DontCare.zero) .shadow ∧
      (∀ c < 3, (CpuTop.runFrom imem s din c).QuietEx) ∧
      ∀ c, 1 ≤ c → c ≤ 3 → (CpuTop.runFrom imem s din c).regWrite (din c) DontCare.zero = [] := by
  have h1 : Draining imem (CpuTop.runFrom imem s din 1) _ _ .flushed := h.trap_flushed ht (din 0)
  have h2 : Draining imem (CpuTop.runFrom imem s din 2) _ _ .frozen := h1.flushed_frozen (din 1)
  have h3 : Draining imem (CpuTop.runFrom imem s din 3) _ _ .shadow := h2.frozen_shadow (din 2)
  refine ⟨h3, fun c hc => ?_, fun c hc hc' => ?_⟩
  · match c, hc with
    | 0, _ => exact h.quietEx_of_trap ht
    | 1, _ => exact quietEx_of_idEx_zero h1.front.2.1
    | 2, _ => exact quietEx_of_idEx_zero h2.front.2.1
  · match c, hc, hc' with
    | 1, _, _ => exact regWrite_of_rfWe h1.rfWe _ _
    | 2, _, _ => exact regWrite_of_rfWe h2.rfWe _ _
    | 3, _, _ => exact regWrite_of_rfWe h3.rfWe _ _

/-- As long as every word of the chain is a trap, the next one reaches EX three cycles after
it, and nothing has acted so far. -/
theorem CpuTop.Wf.shadow_chain (h : s.Wf) (ht : s.idExQ.trap = true) (din : ℕ → Word) (k : ℕ)
    (hk : ∀ j < k, isTrap (imem.at (s.shadowPc j)) = true) :
    Draining imem (CpuTop.runFrom imem s din (3 * k + 3)) (s.shadowPc k)
        (s.nextRegisters (din 0) DontCare.zero) .shadow ∧
      (∀ c < 3 * k + 3, (CpuTop.runFrom imem s din c).QuietEx) ∧
      ∀ c, 1 ≤ c → c ≤ 3 * k + 3 →
        (CpuTop.runFrom imem s din c).regWrite (din c) DontCare.zero = [] := by
  induction k with
  | zero =>
      rw [shadowPc_zero]
      exact h.trap_period ht din
  | succ k ih =>
      obtain ⟨hsh, hquiet, hsilent⟩ := ih fun j hj => hk j (Nat.lt_succ_of_lt hj)
      -- the word of the chain that is in EX now is a trap again
      have ht' : (CpuTop.runFrom imem s din (3 * k + 3)).idExQ.trap = true := by
        rw [hsh.front.2.1]
        exact (Arch.decoded_trap imem ⟨s.shadowPc k, _⟩).trans (hk k (Nat.lt_succ_self k))
      obtain ⟨hsh', hquiet', hsilent'⟩ := @CpuTop.Wf.trap_period imem _
        (h.runFrom imem din (3 * k + 3)) ht' fun j => din (3 * k + 3 + j)
      have hregs : (CpuTop.runFrom imem s din (3 * k + 3)).nextRegisters (din (3 * k + 3 + 0))
          DontCare.zero = s.nextRegisters (din 0) DontCare.zero :=
        (nextRegisters_of_rfWe hsh.rfWe _ _).trans hsh.registers
      rw [hsh.pcUsed, ← shadowPc_succ, hregs, ← runFrom_add] at hsh'
      refine ⟨hsh', fun c hc => ?_, fun c hc hc' => ?_⟩
      · rcases Nat.lt_or_ge c (3 * k + 3) with hlt | hge
        · exact hquiet c hlt
        -- the cycles of the period that begins with the last trap of the chain
        · obtain ⟨e, rfl⟩ := Nat.exists_eq_add_of_le hge
          rw [runFrom_add]
          exact hquiet' e (by omega)
      · rcases Nat.lt_or_ge (3 * k + 3) c with hlt | hge
        · obtain ⟨e, rfl⟩ := Nat.exists_eq_add_of_le (Nat.le_of_lt hlt)
          rw [runFrom_add]
          exact hsilent' e (by omega) (by omega)
        · exact hsilent c hc hge

/-- An idle core stays idle. -/
theorem CpuTop.Idle.runFrom (h : s.Idle) (imem : InstructionMemory) (din : ℕ → Word) (n : ℕ) :
    (runFrom imem s din n).Idle :=
  runFrom_invariant h (fun _ d hs => (hs.step_eq imem d).1) din n

/-- From a trap in EX on, nothing in EX acts, and from the next cycle on no register is
written. -/
def CpuTop.Precise (imem : InstructionMemory) (s : CpuTop) (din : ℕ → Word) : Prop :=
  ∀ n, (CpuTop.runFrom imem s din n).QuietEx ∧
    (1 ≤ n → (CpuTop.runFrom imem s din n).regWrite (din n) DontCare.zero = [])

/-- Every word of the chain behind the trap is harmless, up to the first that is no trap. -/
def CpuTop.HarmlessChain (imem : InstructionMemory) (s : CpuTop) (d : Word) : Prop :=
  ∀ k, (∀ j < k, isTrap (imem.at (s.shadowPc j)) = true) →
    (⟨s.shadowPc k, s.nextRegisters d DontCare.zero⟩ : Arch).harmless imem = true

/-- The core behind a trap acts exactly when a word of the chain does. -/
theorem CpuTop.Wf.precise_iff (h : s.Wf) (ht : s.idExQ.trap = true) (din : ℕ → Word) :
    s.Precise imem din ↔ s.HarmlessChain imem (din 0) := by
  constructor
  · intro hp k hk
    obtain ⟨hsh, -, -⟩ := h.shadow_chain ht din k hk
    -- the word is in EX in cycle `3 k + 3` and its register write is one cycle later
    obtain ⟨hwe, htaken⟩ :=
      (hsh.quietEx_iff (h.runFrom imem din _)).mp (hp (3 * k + 3)).1
    have hrw := (hsh.regWrite_iff (din (3 * k + 3)) (din (3 * k + 4))).mp
      ((hp (3 * k + 4)).2 (by omega))
    exact (Arch.harmless_iff imem _ _).mpr ⟨hwe, hrw, htaken⟩
  · intro hc n
    by_cases hall : ∀ j, isTrap (imem.at (s.shadowPc j)) = true
    · -- the chain never ends
      obtain ⟨-, hquiet, hsilent⟩ := h.shadow_chain ht din n fun j _ => hall j
      exact ⟨hquiet n (by omega), fun hn => hsilent n hn (by omega)⟩
    · -- word `k` is the first that is no trap
      have hex : ∃ k, isTrap (imem.at (s.shadowPc k)) = false := by simpa using hall
      let k := Nat.find hex
      have hmin : ∀ j < k, isTrap (imem.at (s.shadowPc j)) = true := fun j hj =>
        eq_true_of_ne_false (Nat.find_min hex hj)
      obtain ⟨hsh, hquiet, hsilent⟩ := h.shadow_chain ht din k hmin
      have hwf := h.runFrom imem din (3 * k + 3)
      have hharm := hc k hmin
      have hidle := hsh.idle hwf hharm (Nat.find_spec hex) (din (3 * k + 3))
      rcases Nat.lt_or_ge (3 * k + 3) n with hlt | hge
      · -- behind the chain
        obtain ⟨e, rfl⟩ := Nat.exists_eq_add_of_le hlt
        have hidle' := CpuTop.Idle.runFrom hidle imem (fun j => din (3 * k + 4 + j)) e
        have hrun := runFrom_add imem s din (3 * k + 4) e
        rw [show 3 * k + 3 + 1 + e = 3 * k + 4 + e from rfl, hrun]
        exact ⟨(hidle'.step_eq imem 0#32).2, fun _ => (regWrite_eq_nil ..).mpr hidle'.exMem⟩
      · refine ⟨?_, fun hn => hsilent n hn hge⟩
        rcases Nat.lt_or_eq_of_le hge with hlt | rfl
        · exact hquiet n hlt
        · obtain ⟨hwe, -, htaken⟩ := (Arch.harmless_iff imem _ (din 0)).mp hharm
          exact (hsh.quietEx_iff hwf).mpr ⟨hwe, htaken⟩

end

/-! ### The system -/

/-- From a trap in EX on, nothing behind it asserts `IOBUS_WE`, redirects the fetch or writes a
register. -/
def System.TrapPrecise (imem : InstructionMemory) (s : System) (inp : ℕ → SystemInput) : Prop :=
  ∀ n, (s.run imem inp n).cpu.bus.iobusWe = false ∧ (s.run imem inp n).cpu.pcSel = pcPc4 ∧
    (1 ≤ n → (s.run imem inp n).regWrite = [])

/-- **When traps are precise.** From a reachable state with a trap in EX, and with `RST` low,
nothing behind the trap acts exactly when the words of the chain at `PC_USED + 4`,
`PC_USED + 8`, ... are harmless, up to the first that is no trap. -/
theorem trap_precise_iff (imem : InstructionMemory) {s : System} (h : System.Reachable imem s)
    (ht : s.cpu.idExQ.trap = true) {inp : ℕ → SystemInput} (hrst : ∀ n, (inp n).rst = false) :
    s.TrapPrecise imem inp ↔ s.cpu.HarmlessChain imem s.dataIn := by
  have hcore := @CpuTop.Wf.precise_iff imem _ h.cpu.wf ht fun j => (s.run imem inp j).dataIn
  refine Iff.trans ?_ hcore
  refine forall_congr' fun n => ?_
  rw [QuietEx, ← System.run_cpu imem s hrst n, and_assoc]
  exact Iff.rfl

/-- `ecall` at word 0, `addi x1, x0, 1` at words 1 and 2 and `addi x0, x0, 0` at word 3: the two
words directly behind the trap are flushed, the chain is harmless and the trap is precise. -/
theorem trap_precise_iff_ecall :
    let imem : InstructionMemory := fun a =>
      if a = 0#13 then 0x00000073#32 else if a = 3#13 then 0x00000013#32 else 0x00100093#32
    let s := System.run imem ⟨outOfReset imem fun _ => 0#32, ⟨.none, 0#32⟩, ⟨fun _ => 0#32, 0#32⟩⟩
      (fun j => ⟨decide (j < 2), 0#32, 0#32⟩) 4
    s.TrapPrecise imem fun _ => ⟨false, 0#32, 0#32⟩ := by
  intro imem s
  refine (trap_precise_iff imem (System.reachable_run imem _ rfl 3) (by decide +kernel)
    fun _ => rfl).mpr fun k hk => ?_
  cases k with
  | zero => decide +kernel
  | succ k =>
      -- the chain ends with word 3, which is no trap
      have hword : isTrap (imem.at (s.cpu.shadowPc 0)) = false := by decide +kernel
      exact absurd ((hk 0 (Nat.succ_pos k)).symm.trans hword) (by decide)

/-- With `addi x1, x0, 1` at word 3, it writes `x1` four cycles after the `ecall` is in EX. -/
theorem trap_not_precise :
    ¬ ∀ (imem : InstructionMemory) (s : System) (inp : ℕ → SystemInput),
      System.Reachable imem s → s.cpu.idExQ.trap = true → (∀ n, (inp n).rst = false) →
      s.TrapPrecise imem inp := by
  intro hall
  let imem : InstructionMemory :=
    fun a => if a = 0#13 then 0x00000073#32 else if a = 3#13 then 0x00100093#32 else 0x00000013#32
  let s := System.run imem ⟨outOfReset imem fun _ => 0#32, ⟨.none, 0#32⟩, ⟨fun _ => 0#32, 0#32⟩⟩
    (fun j => ⟨decide (j < 2), 0#32, 0#32⟩) 4
  have hprecise := hall imem s (fun _ => ⟨false, 0#32, 0#32⟩)
    (System.reachable_run imem _ rfl 3) (by decide +kernel) fun _ => rfl
  have hwrite : (s.run imem (fun _ => ⟨false, 0#32, 0#32⟩) 4).regWrite = [(1#5, 1#32)] := by
    decide +kernel
  have hsilent := (hprecise 4).2.2 (by decide)
  rw [hwrite] at hsilent
  exact List.cons_ne_nil _ _ hsilent

end Rv32iPipeline
