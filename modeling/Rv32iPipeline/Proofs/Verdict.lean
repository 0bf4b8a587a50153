import Rv32iPipeline.Proofs.Termination
import Rv32iPipeline.Proofs.Trap
import Rv32iPipeline.Rtl.TestBench

/-!
# `Rv32iPipeline.Proofs.Verdict`: what a verdict of the test bench says about the program

The test bench looks at the bus once in each cycle. A store to `tohost` is seen in the cycle that
completes it, so the verdict is about the sequentially executed path, with one exception: in the
iteration that first sees `halt_sig`, the word three words behind the trap is in EX, and the test
bench takes a store of that word for the program's.

* `riscvTest_pass_iff`: when the test bench prints `PASS`.
* `riscvTest_rv32i`: on a shielded run of the RV32I machine the verdict is that of its first store
  to `tohost`.
-/

set_option autoImplicit false

namespace Rv32iPipeline

open CpuTop Clocked TestBench
open Rv32i (Effect Machine)

/-! ### The bus in each cycle -/

/-- The shadow word in EX performs the store of the sequential machine. -/
theorem CpuTop.Draining.busWrite_eq {imem : InstructionMemory} {s : CpuTop} {p : Word}
    {regs : Registers} (h : Draining imem s p regs .shadow) (hwf : s.Wf) :
    s.bus.write = (⟨p, regs⟩ : Arch).busWrite imem := by
  obtain ⟨-, hid, -, hhalt⟩ := h.front
  -- the halted MEM/WB forwards nothing
  have hwb := hwf.held (.inl hhalt)
  have h1 : s.realRs1 = s.idExQ.rs1 := by
    rw [CpuTop.realRs1_eq, forwarded_of_quiet h.rfWe hwb]
  have h2 : s.realRs2 = s.idExQ.rs2 := by
    rw [CpuTop.realRs2_eq, forwarded_of_quiet h.rfWe hwb]
  have haddr : s.bus.dataAddress = s.idExQ.aluResult s.realRs1 s.realRs2 := rfl
  have hout : s.bus.dataOut = s.realRs2 := rfl
  rw [Bus.write, h.iobusWe_eq, Arch.busWrite, haddr, hout, h1, h2]
  have hmd : s.bus.memData = s.idExQ.memData := rfl
  rw [hmd, hid]
  rfl

section
variable {imem : InstructionMemory} {st : ℕ → System} {din : ℕ → Word} {inp : ℕ → SystemInput}
  (H : Driven imem st din inp)
include H

/-- A cycle up to the first trap shows the store of the instruction that completes. The other cycles
are behind a first trap. -/
theorem Driven.cycle_cases (c : ℕ) :
    (∃ n, c ≤ (executed imem st din n).due ∧
      (∀ m < n, (executed imem st din m).due < c ∧
        isTrap (imem.at (executed imem st din m).state.pc) = false) ∧
      (st c).cpu.haltSig = false ∧
      (st c).cpu.bus.write = if c = (executed imem st din n).due then
        (executed imem st din n).state.busWrite imem else []) ∨
    ∃ n, FirstTrap imem (st 0).cpu.registers din n ∧ (executed imem st din n).due < c := by
  rcases (core_refines imem).onTime din ⟨⟨0#32, (st 0).cpu.registers⟩, 2⟩
    (due_outOfReset imem (st 0).cpu.registers (din 0)) c with ⟨n, hn⟩ | ⟨n, hok, hnot, hlt⟩
  · refine .inl ⟨n, hn.le, fun m hm => ⟨(hn.before m hm).1,
      (Arch.decoded_trap imem _).symm.trans (hn.before m hm).2⟩, ?_⟩
    rw [H.runFrom_eq]
    refine ⟨hn.rel.quiet.1, ?_⟩
    by_cases hc : c = (executed imem st din n).due
    · rw [if_pos hc]
      exact (hn.rel_done hc).busWrite_commit
    · rw [if_neg hc]
      exact (hn.rel_wait (Nat.lt_of_le_of_ne hn.le hc)).busWrite_waiting
  · exact .inr ⟨n, ⟨fun m hm => (Arch.decoded_trap imem _).symm.trans (hok m hm),
      (Arch.decoded_trap imem _).symm.trans (eq_true_of_ne_false hnot)⟩, hlt⟩

/-- The three cycles behind a first trap. In the last one `halt_sig` is high, and the word three
words behind the trap performs its store. -/
theorem Driven.behind_trap {n : ℕ} (hn : FirstTrap imem (st 0).cpu.registers din n) :
    (∀ c, (executed imem st din n).due < c → c ≤ (executed imem st din n).due + 2 →
      (st c).cpu.haltSig = false ∧ (st c).cpu.bus.write = []) ∧
    (st ((executed imem st din n).due + 3)).cpu.haltSig = true ∧
    (st ((executed imem st din n).due + 3)).cpu.bus.write
      = (⟨(executed imem st din n).state.pc + 12#32, (executed imem st din n).state.registers⟩ :
          Arch).busWrite imem := by
  have hquiet := (H.due hn.1.decoded).haltSig_behind (din ((executed imem st din n).due + 1))
  obtain ⟨h1, h2, h3, hwf⟩ := H.draining hn
  rw [← H.cpu, ← H.cpu] at hquiet
  have hempty : IdEx.zero.memWe = false := rfl
  refine ⟨fun c hlow hhigh => ?_, h3.front.2.2.2, h3.busWrite_eq hwf⟩
  have hcases : c = (executed imem st din n).due + 1 ∨ c = (executed imem st din n).due + 2 := by
    omega
  rcases hcases with rfl | rfl
  · exact ⟨hquiet.1, busWrite_of_memWe (h1.front.2.1 ▸ hempty)⟩
  · exact ⟨hquiet.2, busWrite_of_memWe (h2.front.2.1 ▸ hempty)⟩

end

/-! ### The loop -/

/-- The data that a list of bus writes stores to `tohost`. -/
def tohostOf (l : List BusWrite) : Option Word :=
  (l.find? fun b => b.1 == tohostAddr).map fun b => b.2.2

/-- The verdict on the last cycle `c` of the loop: what it stores to `tohost`, and `halt_sig`. -/
def judge (tohost : Option Word) (haltSeen : Bool) (c : ℕ) (s : System) : Verdict :=
  match tohost with
  | some v =>
    if v = 0x1#32 then .pass
    else if v.getLsbD 0 then .failCase (v.extractLsb' 1 31) v
    else if haltSeen then .failHalt
    else .failNoStore c (s.cpu.pc false) haltSeen
  | none => if haltSeen then .failHalt else .failNoStore c (s.cpu.pc false) haltSeen

/-- A trap stores nothing. -/
theorem Arch.busWrite_of_trap {imem : InstructionMemory} {a : Arch}
    (h : isTrap (imem.at a.pc) = true) : a.busWrite imem = [] := by
  have hwe := ((Arch.decoded_coherent imem a).trap ((Arch.decoded_trap imem a).trans h)).2.1
  rw [Arch.busWrite, hwe]
  rfl

namespace TestBench

variable (imem : InstructionMemory) (s : System)

/-- The device under test, `c` edges after `RST` is released. -/
def cycle (c : ℕ) : System := (release imem s).dut.run imem (fun _ => pins false) c

/-- What the test bench takes from the pins. -/
theorem tohostOf_write (u : System) : tohostOf u.cpu.bus.write
    = if storesTohost u then some u.cpu.bus.dataOut else none := by
  unfold tohostOf Bus.write storesTohost
  cases u.cpu.bus.iobusWe with
  | false => rfl
  | true => cases h : u.cpu.bus.dataAddress == tohostAddr <;> simp [h]

/-- The loop does not end in this cycle, unless by the watchdog. -/
def Quiet (u : System) : Prop := u.cpu.haltSig = false ∧ tohostOf u.cpu.bus.write = none

/-- After `k` iterations of the loop body. -/
theorem iterate_eq (k : ℕ) : ((iteration imem)^[k] (release imem s)).dut = cycle imem s k ∧
    ((iteration imem)^[k] (release imem s)).cycleI = k ∧
    ((iteration imem)^[k] (release imem s)).timedOut = decide (watchdog ≤ k) := by
  induction k with
  | zero => exact ⟨rfl, rfl, rfl⟩
  | succ k ih =>
      obtain ⟨hdut, hcycle, htime⟩ := ih
      rw [Function.iterate_succ_apply']
      refine ⟨?_, ?_, ?_⟩
      · simp only [iteration, hdut]
        rfl
      · simp only [iteration, hcycle]
      · simp only [iteration, hcycle, htime]
        by_cases h : watchdog ≤ k + 1
        · rw [if_pos h, decide_eq_true h]
        · rw [if_neg h, decide_eq_false h, decide_eq_false fun hk => h (Nat.le_succ_of_le hk)]

/-- Quiet cycles by the pins. -/
theorem quiet_iff (u : System) : Quiet u ↔ u.cpu.haltSig = false ∧ storesTohost u = false := by
  rw [Quiet, tohostOf_write]
  cases storesTohost u <;> simp

/-- One iteration from inside the loop. -/
theorem iteration_running {t : TestBench} (h : t.running = true) :
    (t.iteration imem).haltSeen = (t.iteration imem).dut.cpu.haltSig ∧
      (t.iteration imem).tohostSeen = storesTohost (t.iteration imem).dut := by
  simp only [running, Bool.and_eq_true, Bool.not_eq_true'] at h
  simp only [iteration, h.1.1, h.1.2, Bool.or_false, and_self]

/-- The loop runs on exactly behind a quiet cycle before the watchdog. -/
theorem running_succ {k : ℕ} (h : ((iteration imem)^[k] (release imem s)).running = true) :
    ((iteration imem)^[k + 1] (release imem s)).running = true ↔
      Quiet (cycle imem s (k + 1)) ∧ k + 1 < watchdog := by
  obtain ⟨hdut, -, htime⟩ := iterate_eq imem s (k + 1)
  obtain ⟨hhalt, htohost⟩ := iteration_running imem h
  rw [Function.iterate_succ_apply'] at hdut htime ⊢
  rw [hdut] at hhalt htohost
  rw [quiet_iff, running, hhalt, htohost, htime]
  simp only [Bool.and_eq_true, Bool.not_eq_true', decide_eq_false_iff_not, Nat.not_le]
  constructor
  · rintro ⟨⟨ht, hh⟩, hlt⟩
    exact ⟨⟨hh, ht⟩, hlt⟩
  · rintro ⟨⟨hh, ht⟩, hlt⟩
    exact ⟨⟨ht, hh⟩, hlt⟩

/-- The verdict behind one iteration from inside the loop. -/
theorem verdict_iteration {t : TestBench} (h : t.running = true) :
    (t.iteration imem).verdict
      = judge (tohostOf (t.iteration imem).dut.cpu.bus.write) (t.iteration imem).dut.cpu.haltSig
          (t.iteration imem).cycleI (t.iteration imem).dut := by
  obtain ⟨hhalt, htohost⟩ := iteration_running imem h
  rw [verdict, hhalt, htohost, tohostOf_write]
  cases hstore : storesTohost (t.iteration imem).dut with
  | false =>
      cases hh : (t.iteration imem).dut.cpu.haltSig <;> simp [judge]
  | true =>
      have hdata : (t.iteration imem).tohostData = (t.iteration imem).dut.cpu.bus.dataOut :=
        if_pos hstore
      rw [hdata]
      cases hh : (t.iteration imem).dut.cpu.haltSig <;> simp [judge]

/-- The loop ends in the first cycle with a store to `tohost` or with `halt_sig`, or at the
watchdog. The verdict is on that cycle. -/
theorem exists_last : ∃ c, 1 ≤ c ∧ c ≤ watchdog ∧
    (∀ k, 1 ≤ k → k < c → Quiet (cycle imem s k)) ∧
    (Quiet (cycle imem s c) → c = watchdog) ∧
    riscvTest imem s
      = judge (tohostOf (cycle imem s c).cpu.bus.write) (cycle imem s c).cpu.haltSig c
        (cycle imem s c) := by
  have htime : ((iteration imem)^[watchdog] (release imem s)).running = false := by
    rw [running, (iterate_eq imem s watchdog).2.2]
    simp
  obtain ⟨m, hm, hlow, hend, hloop⟩ := exists_whileLoop ⟨watchdog, Nat.le_refl _, htime⟩
  -- the first iteration is always made
  cases m with
  | zero => exact absurd (show true = false from hend) (by decide)
  | succ m =>
      have hrun := hlow m (Nat.lt_succ_self m)
      obtain ⟨hdut, hcycle, -⟩ := iterate_eq imem s (m + 1)
      refine ⟨m + 1, Nat.succ_pos m, hm, fun k hk hkm => ?_, fun hquiet => ?_, ?_⟩
      · obtain ⟨j, rfl⟩ := Nat.exists_eq_add_of_le' hk
        exact ((running_succ imem s (hlow j (Nat.lt_of_succ_lt hkm))).mp (hlow _ hkm)).1
      · rcases Nat.lt_or_eq_of_le hm with hlt | heq
        · have hgo := (running_succ imem s hrun).mpr ⟨hquiet, hlt⟩
          exact absurd (hend.symm.trans hgo) Bool.false_ne_true
        · exact heq
      · have hverdict := verdict_iteration imem hrun
        rw [← Function.iterate_succ_apply' (iteration imem), hdut, hcycle] at hverdict
        rw [riscvTest, loop, hloop]
        exact hverdict

/-! ### The verdict and the executed path -/

/-- The executed path of the device under test. -/
def path (n : ℕ) : Timed Arch :=
  executed imem (cycle imem s) (fun c => (cycle imem s c).dataIn) n

/-- What an instruction stores to `tohost`. -/
def tohost (a : Arch) : Option Word := tohostOf (a.busWrite imem)

/-- No instruction before `n` is a trap or a store to `tohost`. -/
def QuietBefore (n : ℕ) : Prop :=
  ∀ m < n, isTrap (imem.at (path imem s m).state.pc) = false ∧
    tohost imem (path imem s m).state = none

variable {s}

/-- While `RST` is high the core is `holdReset`. -/
theorem cpu_holdReset (k : ℕ) : (s.run imem (fun _ => pins true) k).cpu
    = holdReset imem s.cpu (fun j => (s.run imem (fun _ => pins true) j).dataIn) k := by
  induction k with
  | zero => rfl
  | succ k ih =>
      rw [holdReset_succ, ← ih]
      rfl

/-- The device under test is driven from reset. -/
theorem driven (hh : s.cpu.haltSig = false) : Driven imem (cycle imem s)
    (fun c => (cycle imem s c).dataIn) (fun _ => pins false) := by
  refine System.driven ?_ fun _ => rfl
  have hreset := holdReset_outOfReset imem hh
    (fun j => (s.run imem (fun _ => pins true) j).dataIn) (k := resetCycles) (by decide)
  rw [← cpu_holdReset] at hreset
  show (s.run imem (fun _ => pins true) resetCycles).cpu = outOfReset imem
    (s.run imem (fun _ => pins true) resetCycles).cpu.registers
  rw [hreset]
  rfl

/-- With quiet instructions before `n`, every cycle before the one that completes `n` is quiet. -/
theorem quiet_cycle (hh : s.cpu.haltSig = false) {n : ℕ} (hq : QuietBefore imem s n) {c : ℕ}
    (hc : c < (path imem s n).due) : Quiet (cycle imem s c) := by
  have hlt : ∀ {m}, (path imem s m).due < (path imem s n).due → m < n := fun h =>
    (Timed.due_strictMono _ _ _ _).lt_iff_lt.mp h
  rcases (driven imem hh).cycle_cases c with ⟨m, -, -, hhalt, hbus⟩ | ⟨m, hm, hmc⟩
  · refine ⟨hhalt, ?_⟩
    rw [hbus]
    split
    · rename_i heq
      exact (hq m (hlt (heq ▸ hc))).2
    · rfl
  · exact absurd (hm.2.symm.trans (hq m (hlt (Nat.lt_trans hmc hc))).1) (by decide)

/-- The verdict is on the first cycle that is not quiet. -/
theorem riscvTest_eq {c : ℕ} (hpos : 1 ≤ c) (hle : c ≤ watchdog)
    (hq : ∀ k < c, Quiet (cycle imem s k)) (hstop : ¬ Quiet (cycle imem s c)) :
    riscvTest imem s
      = judge (tohostOf (cycle imem s c).cpu.bus.write) (cycle imem s c).cpu.haltSig c
        (cycle imem s c) := by
  obtain ⟨m, hm, hmw, hlow, hend, heq⟩ := exists_last imem s
  rcases Nat.lt_trichotomy m c with hlt | rfl | hgt
  · exact absurd (hend (hq m hlt)) (by omega)
  · exact heq
  · exact absurd (hlow c hpos hgt) hstop

/-- A store to `tohost` decides the verdict. -/
theorem riscvTest_store (hh : s.cpu.haltSig = false) {n : ℕ} (hq : QuietBefore imem s n) {v : Word}
    (hv : tohost imem (path imem s n).state = some v) (hle : (path imem s n).due ≤ watchdog) :
    riscvTest imem s
      = judge (some v) false (path imem s n).due (cycle imem s (path imem s n).due) := by
  have H := driven imem hh
  have hdue := H.due (n := n) fun m hm => (Arch.decoded_trap imem _).trans (hq m hm).1
  have hbus : tohostOf (cycle imem s (path imem s n).due).cpu.bus.write = some v :=
    (congrArg tohostOf hdue.busWrite_commit).trans hv
  have hlow := (executed_due imem (cycle imem s) (fun c => (cycle imem s c).dataIn) n).1
  rw [riscvTest_eq imem (c := (path imem s n).due) (Nat.le_trans (by omega) hlow) hle
    (fun k hk => quiet_cycle imem hh hq hk) fun hquiet =>
      absurd (hbus.symm.trans hquiet.2) (Option.some_ne_none v), hbus]
  exact congrArg (fun b => judge (some v) b _ _) hdue.quiet.1

/-- A trap decides the verdict, with what the word three words behind it stores. -/
theorem riscvTest_trap (hh : s.cpu.haltSig = false) {n : ℕ} (hq : QuietBefore imem s n)
    (ht : isTrap (imem.at (path imem s n).state.pc) = true)
    (hle : (path imem s n).due + 3 ≤ watchdog) :
    riscvTest imem s
      = judge (tohost imem ⟨(path imem s n).state.pc + 12#32, (path imem s n).state.registers⟩) true
          ((path imem s n).due + 3) (cycle imem s ((path imem s n).due + 3)) := by
  have H := driven imem hh
  have hfirst :
      FirstTrap imem (cycle imem s 0).cpu.registers (fun c => (cycle imem s c).dataIn) n :=
    ⟨fun m hm => (hq m hm).1, ht⟩
  obtain ⟨hbehind, hhalt, hbus⟩ := H.behind_trap hfirst
  have hdue := H.due hfirst.1.decoded
  -- the trap itself stores nothing
  have hquiet : Quiet (cycle imem s (path imem s n).due) :=
    ⟨hdue.quiet.1,
      congrArg tohostOf (hdue.busWrite_commit.trans (Arch.busWrite_of_trap ht))⟩
  rw [riscvTest_eq imem (c := (path imem s n).due + 3) (by omega) hle (fun k hk => ?_) fun hq' =>
    absurd (hhalt.symm.trans hq'.1) (by decide)]
  · exact congrArg₂ (fun l b => judge (tohostOf l) b _ _) hbus hhalt
  · rcases Nat.lt_trichotomy k (path imem s n).due with hlt | rfl | hgt
    · exact quiet_cycle imem hh hq hlt
    · exact hquiet
    · obtain ⟨hh', hb'⟩ := hbehind k hgt (Nat.le_of_lt_succ hk)
      exact ⟨hh', by rw [hb']; rfl⟩

/-- Every verdict is on a store to `tohost`, on a trap, or on the watchdog. -/
theorem riscvTest_cases (hh : s.cpu.haltSig = false) :
    (∃ n v, QuietBefore imem s n ∧ tohost imem (path imem s n).state = some v ∧
      (path imem s n).due ≤ watchdog) ∨
    (∃ n, QuietBefore imem s n ∧ isTrap (imem.at (path imem s n).state.pc) = true ∧
      (path imem s n).due + 3 ≤ watchdog) ∨
    ∃ pc, riscvTest imem s = .failNoStore watchdog pc false := by
  have H := driven imem hh
  obtain ⟨c, hpos, hle, hlow, hend, heq⟩ := exists_last imem s
  -- a quiet last cycle is the one of the watchdog
  have htime : Quiet (cycle imem s c) →
      ∃ pc, riscvTest imem s = .failNoStore watchdog pc false := by
    intro hquiet
    obtain rfl := hend hquiet
    rw [heq, hquiet.1, hquiet.2]
    exact ⟨_, rfl⟩
  -- the instructions completed before it are quiet, as their cycles are
  have hbefore : ∀ {n}, (∀ m < n, (path imem s m).due < c ∧
      isTrap (imem.at (path imem s m).state.pc) = false) → QuietBefore imem s n := by
    intro n hn m hm
    have hdue := H.due (n := m) fun k hk => (Arch.decoded_trap imem _).trans
      (hn k (Nat.lt_trans hk hm)).2
    have hpos := (executed_due imem (cycle imem s) (fun c => (cycle imem s c).dataIn) m).1
    refine ⟨(hn m hm).2, ?_⟩
    exact (congrArg tohostOf hdue.busWrite_commit).symm.trans
      (hlow _ (Nat.le_trans (by omega) hpos) (hn m hm).1).2
  rcases H.cycle_cases c with ⟨n, hn, hok, hhalt, hbus⟩ | ⟨n, hn, hnc⟩
  · have hq := hbefore hok
    rcases Nat.lt_or_eq_of_le hn with hlt | rfl
    · refine .inr (.inr (htime ⟨hhalt, ?_⟩))
      rw [hbus, if_neg (Nat.ne_of_lt hlt)]
      rfl
    · rw [if_pos rfl] at hbus
      cases hv : tohost imem (path imem s n).state with
      | none => exact .inr (.inr (htime ⟨hhalt, (congrArg tohostOf hbus).trans hv⟩))
      | some v => exact .inl ⟨n, v, hq, hv, hle⟩
  · obtain ⟨hbehind, hhalt, -⟩ := H.behind_trap hn
    have hmono : ∀ m < n, (path imem s m).due < c := fun m hm =>
      Nat.lt_trans (Timed.due_strictMono _ _ _ _ hm) hnc
    have hq := hbefore fun m hm => ⟨hmono m hm, hn.1 m hm⟩
    -- `halt_sig` ends the loop three cycles behind the trap
    rcases Nat.lt_trichotomy c ((path imem s n).due + 3) with hlt | rfl | hgt
    · obtain ⟨hh', hb'⟩ := hbehind c hnc (Nat.le_of_lt_succ hlt)
      exact .inr (.inr (htime ⟨hh', by rw [hb']; rfl⟩))
    · exact .inr (.inl ⟨n, hq, hn.2, hle⟩)
    · exact absurd (hhalt.symm.trans (hlow _ (by omega) hgt).1) (by decide)

/-- Only a store of 1 is judged a pass. -/
theorem judge_eq_pass {o : Option Word} {b : Bool} {c : ℕ} {u : System} :
    judge o b c u = .pass ↔ o = some 1#32 := by
  cases o with
  | none => cases b <;> simp [judge]
  | some v =>
      by_cases hv : v = 1#32
      · simp [judge, hv]
      · have hne : some v ≠ some 1#32 := fun h => hv (Option.some.inj h)
        refine iff_of_false ?_ hne
        simp only [judge, if_neg hv]
        cases v.getLsbD 0 <;> cases b <;> exact Verdict.noConfusion

/-- **What `PASS` means.** `halt_sig` is low at power-up. The test bench prints `PASS` exactly when
the first event of the executed path, within the watchdog, is a store of 1 to `tohost`, or a trap
with such a store three words behind it. -/
theorem riscvTest_pass_iff (hh : s.cpu.haltSig = false) : riscvTest imem s = .pass ↔
    ∃ n, QuietBefore imem s n ∧
      ((tohost imem (path imem s n).state = some 1#32 ∧ (path imem s n).due ≤ watchdog) ∨
        (isTrap (imem.at (path imem s n).state.pc) = true ∧
          tohost imem ⟨(path imem s n).state.pc + 12#32, (path imem s n).state.registers⟩
            = some 1#32 ∧
          (path imem s n).due + 3 ≤ watchdog)) := by
  constructor
  · intro hpass
    rcases riscvTest_cases imem hh with ⟨n, v, hq, hv, hle⟩ | ⟨n, hq, ht, hle⟩ | ⟨pc, htime⟩
    · rw [riscvTest_store imem hh hq hv hle, judge_eq_pass] at hpass
      exact ⟨n, hq, .inl ⟨hv.trans hpass, hle⟩⟩
    · rw [riscvTest_trap imem hh hq ht hle, judge_eq_pass] at hpass
      exact ⟨n, hq, .inr ⟨ht, hpass, hle⟩⟩
    · exact absurd (htime.symm.trans hpass) (by simp)
  · rintro ⟨n, hq, ⟨hv, hle⟩ | ⟨ht, hv, hle⟩⟩
    · rw [riscvTest_store imem hh hq hv hle, judge_eq_pass]
    · rw [riscvTest_trap imem hh hq ht hle, judge_eq_pass, hv]

/-- `ecall` and then `sw x1, 0x20(x2)` everywhere, with `x1 = 1` and `x2 = 0x3F60`: the core traps
on its first instruction, and the test bench prints `PASS`. -/
theorem riscvTest_pass_iff_ecall :
    let imem : InstructionMemory := fun a => if a = 0#13 then 0x00000073#32 else 0x02112023#32
    let regs : Registers := fun r => if r = 1#5 then 1#32 else 0x00003F60#32
    let s : System := ⟨outOfReset imem regs, ⟨.none, 0#32⟩, ⟨fun _ => 0#32, 0#32⟩⟩
    riscvTest imem s = .pass := by
  intro imem regs s
  refine (riscvTest_pass_iff imem (s := s) rfl).mpr
    ⟨0, fun m hm => absurd hm (Nat.not_lt_zero m), .inr ⟨?_, ?_, ?_⟩⟩
  · decide +kernel
  · decide +kernel
  · decide +kernel

/-! ### The verdict and the RV32I machine -/

/-- What the next instruction of the machine stores to `tohost`. -/
def machineTohost (h : Machine Devices) : Option Word :=
  (((h.effect imem.at).elim [] Effect.stores).find? fun x => x.1 == tohostAddr).map fun x => x.2.2

/-- The machine and the core agree on it. -/
theorem machineTohost_eq {a : Arch} {d : Devices} {e : Effect}
    (he : (⟨a.hart, d⟩ : Machine Devices).effect imem.at = some e) :
    machineTohost imem ⟨a.hart, d⟩ = tohost imem a := by
  obtain ⟨o, ho, heff⟩ := Arch.effect_eq_some he
  rw [machineTohost, he, Option.elim_some, ← heff, ← Arch.busWrite_stores (executes_of_decode ho),
    List.find?_map, Option.map_map]
  rfl

/-- **The verdict on an RV32I program.** `halt_sig` is low at power-up. The RV32I machine, started
on the image with switches and buttons at 0, gets to instruction `n`, and every load from `DMEM`
on the way was shielded. Instruction `n` is its first store to `tohost`, of an odd `v`, early
enough for the watchdog. Then the test bench prints `PASS` for `v = 1`, and else the failing case
`v >> 1`. -/
theorem riscvTest_rv32i (hh : s.cpu.haltSig = false) {n : ℕ} {h : Machine Devices} {v : Word}
    (hrun : (release imem s).dut.deviceRun imem (fun _ => pins false) n = some h)
    (hshield : ∀ k < n, ∀ hk,
      (release imem s).dut.deviceRun imem (fun _ => pins false) k = some hk →
        shieldedAt imem false hk.hart = true)
    (hquiet : ∀ k < n, ∀ hk,
      (release imem s).dut.deviceRun imem (fun _ => pins false) k = some hk →
        machineTohost imem hk = none)
    (hstore : machineTohost imem h = some v) (hodd : v.getLsbD 0 = true)
    (htime : 3 * n + 2 ≤ watchdog) :
    riscvTest imem s = if v = 1#32 then .pass else .failCase (v.extractLsb' 1 31) v := by
  have H := driven imem hh
  have hmachine : ∀ {k hk}, k ≤ n →
      (release imem s).dut.deviceRun imem (fun _ => pins false) k = some hk →
      hk = ⟨(path imem s k).state.hart,
        devicesAt imem (path imem s) (release imem s).dut.devices k⟩ := fun hkn hrunk =>
    (H.machine false (d := (release imem s).dut.devices) rfl (fun _ => rfl) hrunk fun j hj =>
      hshield j (Nat.lt_of_lt_of_le hj hkn)).1
  have hok := (H.machine false (d := (release imem s).dut.devices) rfl (fun _ => rfl) hrun
    hshield).2
  -- no earlier instruction of the path is a trap or a store to `tohost`
  have hq : QuietBefore imem s n := by
    intro m hm
    obtain ⟨hk, e, hrunk, he⟩ := Machine.exists_effect_of_lt hrun hm
    have hnone := hquiet m hm hk hrunk
    obtain rfl := hmachine (Nat.le_of_lt hm) hrunk
    exact ⟨(Arch.decoded_trap imem _).symm.trans (hok m hm),
      (machineTohost_eq imem he).symm.trans hnone⟩
  have hv : tohost imem (path imem s n).state = some v := by
    obtain rfl := hmachine (Nat.le_refl n) hrun
    cases he : (⟨(path imem s n).state.hart, devicesAt imem (path imem s)
        (release imem s).dut.devices n⟩ : Machine Devices).effect imem.at with
    | none => simp [machineTohost, he] at hstore
    | some e => exact (machineTohost_eq imem he).symm.trans hstore
  have hdue := (executed_due imem (cycle imem s) (fun c => (cycle imem s c).dataIn) n).2
  rw [riscvTest_store imem hh hq hv (Nat.le_trans hdue htime), judge, if_pos hodd]

/-- `addi x1, x0, 5` and then `sw x1, 0x20(x2)` with `x2 = 0x3F60`: case 2 fails. -/
theorem riscvTest_rv32i_case :
    let imem : InstructionMemory := fun a => if a = 0#13 then 0x00500093#32 else 0x02112023#32
    let s : System := ⟨outOfReset imem fun _ => 0x00003F60#32, ⟨.none, 0#32⟩, ⟨fun _ => 0#32, 0#32⟩⟩
    riscvTest imem s = .failCase 2#31 5#32 := by
  intro imem s
  have hrun := (Option.some_get (show ((release imem s).dut.deviceRun imem (fun _ => pins false)
    1).isSome = true by decide +kernel)).symm
  have hfirst : ∀ k < 1, ((release imem s).dut.deviceRun imem (fun _ => pins false) k).all
      (fun h => shieldedAt imem false h.hart && (machineTohost imem h).isNone) = true := by
    decide +kernel
  refine riscvTest_rv32i imem (s := s) (v := 5#32) rfl hrun (fun k hk h hrunk => ?_)
    (fun k hk h hrunk => ?_) (by decide +kernel) (by decide) (by decide)
  · have hk' := hfirst k hk
    rw [hrunk] at hk'
    exact (Bool.and_eq_true_iff.mp hk').1
  · have hk' := hfirst k hk
    rw [hrunk] at hk'
    exact Option.isNone_iff_eq_none.mp (Bool.and_eq_true_iff.mp hk').2

end TestBench

end Rv32iPipeline
