import Mathlib.Data.Nat.Find
import Rv32iPipeline.Proofs.Termination
import Rv32iPipeline.Proofs.Trap
import Rv32iPipeline.Rtl.TestBench

/-!
# `Rv32iPipeline.Proofs.Parking`: when `PC` repeats

`MCU_WRAPPER_tb` takes a program for done when `PC` repeats, and expects that of a jump to itself.
But `PC` is the address that the pipeline fetches next. Behind a taken transfer it moves on by 4
until the transfer comes round again, and in sequence it moves on with every instruction
(`Driven.pc_moves`). Only a halted core holds it.

`board_parks`: a park on the board is a trap.
-/

set_option autoImplicit false

namespace Rv32iPipeline

open CpuTop Clocked McuWrapper

/-! ### The detector -/

namespace ParkDetector

variable {p : ParkDetector} {pc : ℕ → Word}

/-- `park_count` samples in a row are equal to the last one. -/
theorem pc_eq_of_lt (h0 : p.parkCount = 0) {c i : ℕ} (hi : i < (p.run pc (c + 1)).parkCount) :
    i ≤ c ∧ pc (c - i) = pc c := by
  induction c generalizing i with
  | zero =>
      have hcount : (p.run pc (0 + 1)).parkCount ≤ 1 := by
        show (if p.lastPc = some (pc 0) then p.parkCount + 1 else 0) ≤ 1
        split <;> omega
      obtain rfl : i = 0 := by omega
      exact ⟨Nat.le_refl 0, rfl⟩
  | succ c ih =>
      have hcount : (p.run pc (c + 1 + 1)).parkCount
          = if some (pc c) = some (pc (c + 1)) then (p.run pc (c + 1)).parkCount + 1 else 0 := rfl
      rw [hcount] at hi
      split at hi
      · rename_i hsame
        cases i with
        | zero => exact ⟨Nat.zero_le _, rfl⟩
        | succ i =>
            obtain ⟨hle, heq⟩ := ih (Nat.lt_of_succ_lt_succ hi)
            refine ⟨Nat.succ_le_succ hle, ?_⟩
            rw [Nat.succ_sub_succ, heq]
            exact Option.some.inj hsame
      · exact absurd hi (Nat.not_lt_zero i)

/-- Samples that stay the same are counted. -/
theorem le_parkCount {c m : ℕ} {v : Word} (h : ∀ k, c ≤ k → k ≤ c + m → pc k = v) :
    m ≤ (p.run pc (c + m + 1)).parkCount := by
  induction m with
  | zero => exact Nat.zero_le _
  | succ m ih =>
      have hcount : (p.run pc (c + (m + 1) + 1)).parkCount
          = if some (pc (c + m)) = some (pc (c + (m + 1))) then (p.run pc (c + m + 1)).parkCount + 1
            else 0 := rfl
      have hsame : pc (c + m) = pc (c + (m + 1)) :=
        (h _ (by omega) (by omega)).trans (h _ (by omega) (by omega)).symm
      rw [hcount, if_pos (congrArg some hsame)]
      exact Nat.succ_le_succ (ih fun k hk hk' => h k hk (by omega))

end ParkDetector

/-! ### `PC` along the executed path -/

section
variable {imem : InstructionMemory} {s : CpuTop} {d : Word} {a : Arch}

/-- `PC` is three words ahead of an instruction in EX, in sequence. -/
theorem Due.pc_of_not_taken (h : Due imem s d a 0) (ht : a.taken imem = false) :
    s.pc false = a.pc + 12#32 := by
  obtain ⟨hsim, hs⟩ := h.execute
  rw [hsim.pc_of_not_taken hs ht, BitVec.add_assoc, BitVec.add_assoc]
  rfl

/-- A taken transfer puts its target on `PC`, and then the word behind it. -/
theorem Due.pc_of_taken (h : Due imem s d a 0) (ht : a.taken imem = true)
    (htrap : isTrap (imem.at a.pc) = false) :
    s.pc false = a.nextPc imem ∧
      (s.step imem (CpuInput.run d)).pc false = a.nextPc imem + 4#32 := by
  obtain ⟨hsim, hs⟩ := h.execute
  refine ⟨hsim.pc_of_taken hs ht, ?_⟩
  have hnext := hsim.commit_taken hs ht (h.trap_eq.trans htrap) 0#32
  obtain ⟨hid, -, hpc, -⟩ := hnext.front
  rw [pc_of_idEx_zero hid, hpc]
  rfl

/-- Nothing in EX of an idle core stalls or flushes. -/
theorem CpuTop.Idle.not_stall (h : s.Idle) : s.stall = false ∧ s.flush = false := by
  obtain ⟨p, regs, hid⟩ := h.idEx
  constructor
  · rw [stall_eq, hid]
    simp [readsMemLoad, idExD, ifIdD, controlUnitDecoder, opcodeOf, DontCare.zero]
  · rw [flush, hid]
    simp [IdEx.taken, idExD, ifIdD, controlUnitDecoder, opcodeOf, DontCare.zero, Control.base]

/-- An idle core holds `PC`. -/
theorem CpuTop.Idle.pc_step (h : s.Idle) (imem : InstructionMemory) (d : Word) :
    (s.step imem (CpuInput.run d)).pc false = s.pc false := by
  have hpc : ∀ {t : CpuTop}, t.Idle → t.pc false = t.pcUsed + 4#32 := fun {t} ht => by
    rw [CpuTop.pc, (ht.step_eq imem d).2.2]
    rfl
  have hst := step_frozen imem d DontCare.zero h.not_stall.1 h.not_stall.2
    (by simp [freeze, h.halt])
  rw [hpc (h.step_eq imem d).1, hpc h, CpuInput.run, hst]

end

/-- No word is 4 bytes in front of itself. -/
theorem ne_add_four (w : Word) : w ≠ w + 4#32 := by
  intro h
  bv_omega

/-- A path with a trap has a first one. -/
theorem exists_firstTrap {imem : InstructionMemory} {regs : Registers} {din : ℕ → Word} {n : ℕ}
    (h : isTrap (imem.at (execution imem regs din n).state.pc) = true) :
    ∃ m ≤ n, FirstTrap imem regs din m := by
  have hex : ∃ m, isTrap (imem.at (execution imem regs din m).state.pc) = true := ⟨n, h⟩
  exact ⟨Nat.find hex, Nat.find_min' hex h,
    fun m hm => (Bool.not_eq_true _).mp (Nat.find_min hex hm), Nat.find_spec hex⟩

section
variable {imem : InstructionMemory} {st : ℕ → System} {din : ℕ → Word} {inp : ℕ → SystemInput}
  (H : Driven imem st din inp)
include H

/-- `PC` moves between the completion of an instruction and the cycle behind that of the next. -/
theorem Driven.pc_moves {n : ℕ} (hok : NoTrapBefore imem (st 0).cpu.registers din (n + 2))
    {v : Word} (h : ∀ k, (executed imem st din n).due ≤ k →
      k ≤ (executed imem st din (n + 1)).due + 1 → (st k).cpu.pc false = v) : False := by
  have hlt : (executed imem st din n).due < (executed imem st din (n + 1)).due :=
    Timed.due_strictMono _ _ _ _ (Nat.lt_succ_self n)
  -- a taken transfer moves it at once
  have htaken : ∀ m, m < n + 2 → (executed imem st din n).due ≤ (executed imem st din m).due →
      (executed imem st din m).due ≤ (executed imem st din (n + 1)).due →
      (executed imem st din m).state.taken imem = false := by
    intro m hm hlow hhigh
    refine (Bool.not_eq_true _).mp fun ht => ?_
    have hdue := H.due (n := m) fun j hj => hok.decoded j (Nat.lt_trans hj hm)
    obtain ⟨hpc, hpc'⟩ := hdue.pc_of_taken ht (hok m hm)
    rw [← H.cpu] at hpc'
    have h0 := h _ hlow (by omega)
    have h1 := h ((executed imem st din m).due + 1) (by omega) (by omega)
    exact ne_add_four _ (hpc.symm.trans (h0.trans (h1.symm.trans hpc')))
  -- and in sequence two instructions have different words in front of them
  have hn := htaken n (by omega) (Nat.le_refl _) (Nat.le_of_lt hlt)
  have hn' := htaken (n + 1) (by omega) (Nat.le_of_lt hlt) (Nat.le_refl _)
  have hdue := H.due (n := n) fun j hj => hok.decoded j (by omega)
  have hdue' := H.due (n := n + 1) fun j hj => hok.decoded j (by omega)
  have hpc : (executed imem st din (n + 1)).state.pc = (executed imem st din n).state.pc + 4#32 :=
    Arch.nextPc_of_not_taken imem hn
  have h0 := h _ (Nat.le_refl _) (by omega)
  have h1 := h _ (Nat.le_of_lt hlt) (Nat.le_succ _)
  rw [hdue.pc_of_not_taken hn] at h0
  rw [hdue'.pc_of_not_taken hn', hpc, BitVec.add_assoc, BitVec.add_comm 4#32,
    ← BitVec.add_assoc] at h1
  exact ne_add_four _ (h0.trans h1.symm)

/-- Behind a run of equal `PC`s there is a trap. -/
theorem Driven.trap_of_held {c : ℕ} {v : Word} (h : ∀ k, c ≤ k → k ≤ c + 15 →
    (st k).cpu.pc false = v) :
    ∃ n, FirstTrap imem (st 0).cpu.registers din n ∧ (executed imem st din n).due + 3 ≤ c + 15 := by
  have hdue : ∀ n, n + 2 ≤ (executed imem st din n).due := fun n => (executed_due imem st din n).1
  have hnext : ∀ n, (executed imem st din (n + 1)).due ≤ (executed imem st din n).due + 3 := by
    intro n
    have hdelay := Arch.delay_le imem (executed imem st din n).state
      (executed imem st din (n + 1)).state
    show (executed imem st din n).due + 1 + Arch.delay imem _ _ ≤ _
    exact Nat.add_le_add_left hdelay ((executed imem st din n).due + 1)
  -- the first instruction that completes in the run of equal `PC`s
  have hex : ∃ n, c ≤ (executed imem st din n).due := ⟨c, Nat.le_trans (by omega) (hdue c)⟩
  obtain ⟨n, hlow, hhigh⟩ : ∃ n, c ≤ (executed imem st din n).due ∧
      (executed imem st din n).due ≤ c + 2 := by
    refine ⟨Nat.find hex, Nat.find_spec hex, ?_⟩
    cases hfind : Nat.find hex with
    | zero =>
        have hzero : (executed imem st din 0).due = 2 := rfl
        omega
    | succ n =>
        have hlt := Nat.find_min hex (m := n) (by omega)
        have := hnext n
        omega
  have hn := hnext n
  by_contra hno
  refine H.pc_moves (n := n) (v := v) (fun m hm => (Bool.not_eq_true _).mp fun ht => hno ?_)
    fun k hk hk' => h k (by omega) (by omega)
  obtain ⟨j, hj, hfirst⟩ := exists_firstTrap ht
  have hmono : (executed imem st din j).due ≤ (executed imem st din (n + 1)).due :=
    (Timed.due_strictMono _ _ _ _).monotone (by omega)
  exact ⟨j, hfirst, by omega⟩

/-- Behind a trap with a harmless shadow word the core is idle, so it holds `PC`. -/
theorem Driven.pc_held {n : ℕ} (hn : FirstTrap imem (st 0).cpu.registers din n)
    (hharm : (⟨(executed imem st din n).state.pc + 12#32,
      (executed imem st din n).state.registers⟩ : Arch).harmless imem = true)
    (htrap : isTrap (imem.at ((executed imem st din n).state.pc + 12#32)) = false) (k : ℕ) :
    (st ((executed imem st din n).due + 4 + k)).cpu.Idle ∧
      (st ((executed imem st din n).due + 4 + k)).cpu.pc false
        = (st ((executed imem st din n).due + 4)).cpu.pc false := by
  induction k with
  | zero =>
      obtain ⟨-, -, hshadow, hwf⟩ := H.draining hn
      refine ⟨?_, rfl⟩
      have hidle := hshadow.idle hwf hharm htrap (din ((executed imem st din n).due + 3))
      rw [← H.cpu] at hidle
      exact hidle
  | succ k ih =>
      obtain ⟨hidle, hpc⟩ := ih
      rw [← Nat.add_assoc, H.cpu]
      exact ⟨(hidle.step_eq imem _).1, (hidle.pc_step imem _).trans hpc⟩

end

/-! ### The board -/

section
variable (imem : InstructionMemory) {w : McuWrapper}
  (hstart : w.system.cpu = outOfReset imem w.system.cpu.registers) (hclk : w.clk50 = true)
  {inp : ℕ → BoardInput} (hb : ∀ j, (inp j).btnc = false)
include hstart hclk hb

/-- **A park is a trap.** The wrapper is out of reset, at a rising edge of `clk_50`, and `BTNC`
stays low. A sample is `PC` with `s_reset` low. `s_reset` may still be high at the first one,
where `PC` is then 0 and not 4. No park depends on it, as `PC` is 8 at the second one. When
`MCU_WRAPPER_tb` has counted `PARK_HOLD` repeats of `PC` in core cycle `c`, the program has
trapped, and `halt_sig` is high: no loop holds `PC` for so long. From 20 cycles after a trap on it
has counted them, if the word three words behind the trap, which still gets to EX, is harmless and
no trap itself. -/
theorem board_parks {p : ParkDetector} (hp : p.parkCount = 0) :
    (∀ c, ParkDetector.parkHold
        ≤ (p.run (fun k => (w.observed imem inp k).cpu.pc false) (c + 1)).parkCount →
      ∃ n, (∀ m < n, isTrap (imem.at (w.path imem inp m).state.pc) = false) ∧
        isTrap (imem.at (w.path imem inp n).state.pc) = true ∧ (w.path imem inp n).due + 3 ≤ c) ∧
    ∀ n, (∀ m < n, isTrap (imem.at (w.path imem inp m).state.pc) = false) →
      isTrap (imem.at (w.path imem inp n).state.pc) = true →
      (⟨(w.path imem inp n).state.pc + 12#32, (w.path imem inp n).state.registers⟩ : Arch).harmless
        imem = true →
      isTrap (imem.at ((w.path imem inp n).state.pc + 12#32)) = false →
      ∀ c, (w.path imem inp n).due + 20 ≤ c → ParkDetector.parkHold
        ≤ (p.run (fun k => (w.observed imem inp k).cpu.pc false) (c + 1)).parkCount := by
  have H := McuWrapper.driven imem hstart hclk hb
  constructor
  · intro c hpark
    have hwindow : ∀ i < 16, i ≤ c ∧ (w.observed imem inp (c - i)).cpu.pc false
        = (w.observed imem inp c).cpu.pc false := fun i hi =>
      ParkDetector.pc_eq_of_lt hp (Nat.lt_of_lt_of_le hi hpark)
    obtain ⟨b, rfl⟩ : ∃ b, c = b + 15 := ⟨c - 15, by have := (hwindow 15 (by decide)).1; omega⟩
    obtain ⟨n, hn, hle⟩ := H.trap_of_held (c := b) fun k hk hk' => by
      have hsame := (hwindow (b + 15 - k) (by omega)).2
      rwa [Nat.sub_sub_self hk'] at hsame
    exact ⟨n, hn.1, hn.2, hle⟩
  · intro n hok htrap hharm hnext c hc
    obtain ⟨j, rfl⟩ : ∃ j, c = (w.path imem inp n).due + 4 + j + 16 :=
      ⟨c - (w.path imem inp n).due - 20, by omega⟩
    refine ParkDetector.le_parkCount
      (v := (w.observed imem inp ((w.path imem inp n).due + 4)).cpu.pc false) fun k hk _ => ?_
    obtain ⟨i, rfl⟩ : ∃ i, k = (w.path imem inp n).due + 4 + i :=
      ⟨k - ((w.path imem inp n).due + 4), by omega⟩
    exact (H.pc_held ⟨hok, htrap⟩ hharm hnext i).2

end

/-- `jal x0, 0` everywhere, which jumps to itself: the test bench never sees it park. -/
theorem board_parks_loop :
    let imem : InstructionMemory := fun _ => 0x0000006F#32
    let w : McuWrapper := ⟨⟨outOfReset imem fun _ => 0#32, ⟨.none, 0#32⟩, ⟨fun _ => 0#32, 0#32⟩⟩,
      true, false, 0#16, 0#16⟩
    let inp : ℕ → BoardInput := fun _ => ⟨false, 0#4, 0#16⟩
    ∀ c, (ParkDetector.run ⟨none, 0⟩ (fun k => (w.observed imem inp k).cpu.pc false)
      (c + 1)).parkCount < ParkDetector.parkHold := by
  intro imem w inp c
  have hb : ∀ j, (inp j).btnc = false := fun _ => rfl
  refine Nat.lt_of_not_le fun hpark => ?_
  obtain ⟨n, -, htrap, -⟩ := (board_parks imem (w := w) rfl rfl hb rfl).1 c hpark
  have hword : isTrap 0x0000006F#32 = false := by decide
  exact Bool.false_ne_true (hword.symm.trans htrap)

end Rv32iPipeline
