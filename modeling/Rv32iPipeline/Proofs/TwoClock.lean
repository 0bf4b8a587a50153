import Rv32iPipeline.Proofs.SystemRun
import Rv32iPipeline.Rtl.McuWrapper

/-!
# `Rv32iPipeline.Proofs.TwoClock`: the board wrapper and the one-clock system

In the wrapper a core cycle is two edges of `CLK`, and `DMEM` sees both. The second edge with
the same request changes nothing (`Dmem.step_twice`), so the array and the registered word are
those of one edge. But the core samples `DATA_IN` behind them: a read request of the
instruction in EX has replaced the registered word by then. A load in MEM then gets the word
of its successor.

`two_clocks_agree_iff`: the two systems agree over the whole run exactly when, in each cycle
that keeps `DATA_IN`, a read request of `DMEM` leaves the formatted word as it was.
-/

set_option autoImplicit false

namespace Rv32iPipeline

/-! ### Where `DATA_IN` goes -/

namespace CpuTop

/-- The core without the copy of `DATA_IN` in EX/MEM. -/
def forget (c : CpuTop) : CpuTop := { c with exMemQ := { c.exMemQ with dataIn := 0#32 } }

/-- A load is in MEM, and its value goes into MEM/WB or into the register array. -/
def KeepsLoad (c : CpuTop) : Prop :=
  c.exMemQ.rfSel = wbDataIn ∧ ((c.haltSig || c.memWbQ.trap) = false ∨
    (c.exMemQ.rfWe && c.exMemQ.regWriteAddr != 0#5) = true)

/-- The cycle keeps `DATA_IN`: in the copy, or as the value of a load. -/
def KeepsDataIn (c : CpuTop) : Prop := c.stall = false ∨ c.KeepsLoad

/-- The copy and the rest make the core. -/
theorem eq_iff_forget {c c' : CpuTop} :
    c = c' ↔ c.forget = c'.forget ∧ c.exMemQ.dataIn = c'.exMemQ.dataIn := by
  refine ⟨fun h => h ▸ ⟨rfl, rfl⟩, fun ⟨hforget, hcopy⟩ => ?_⟩
  have hrestore : ∀ c : CpuTop, c = { c.forget with
      exMemQ := { c.forget.exMemQ with dataIn := c.exMemQ.dataIn } } := fun _ => rfl
  rw [hrestore c, hrestore c', hforget, hcopy]

/-- Without a load that is kept, MEM/WB and the register array do not depend on `DATA_IN`. -/
theorem forget_step_of_not_keepsLoad (imem : InstructionMemory) {c : CpuTop} (h : ¬ c.KeepsLoad)
    (d d' : Word) (x : DontCare) :
    (c.step imem ⟨false, d, x⟩).forget = (c.step imem ⟨false, d', x⟩).forget := by
  have hexMem : ({ c.nextExMem ⟨false, d, x⟩ with dataIn := 0#32 } : ExMem)
      = { c.nextExMem ⟨false, d', x⟩ with dataIn := 0#32 } := by
    cases hstall : c.stall with
    | true => rw [nextExMem_of_stall hstall, nextExMem_of_stall hstall]
    | false =>
        rw [nextExMem_of_not_stall hstall, nextExMem_of_not_stall hstall]
        rfl
  have hkept : c.nextMemWb ⟨false, d, x⟩ = c.nextMemWb ⟨false, d', x⟩ ∧
      c.nextRegisters d x = c.nextRegisters d' x := by
    by_cases hsel : c.exMemQ.rfSel = wbDataIn
    · -- a load that is not kept meets a held MEM/WB and writes no register
      have hheld : (c.haltSig || c.memWbQ.trap) = true :=
        (Bool.not_eq_false _).mp fun hfree => h ⟨hsel, Or.inl hfree⟩
      have hoff : (c.exMemQ.rfWe && c.exMemQ.regWriteAddr != 0#5) = false :=
        (Bool.not_eq_true _).mp fun hon => h ⟨hsel, Or.inr hon⟩
      simp only [nextMemWb, nextRegisters, Registers.write, hheld, hoff, if_true,
        Bool.false_eq_true, if_false, and_self]
    · have hwrite : c.writeData d x = c.writeData d' x := fourToOneMux_congr_c hsel
      simp only [nextMemWb, nextRegisters, hwrite, and_self]
  simp only [forget, step, hexMem, hkept.1, hkept.2]
  rfl

/-- A load that is kept shows `DATA_IN` in the next state. -/
theorem KeepsLoad.dataIn_eq {imem : InstructionMemory} {c : CpuTop} (h : c.KeepsLoad) {d d' : Word}
    {x : DontCare}
    (hstep : (c.step imem ⟨false, d, x⟩).forget = (c.step imem ⟨false, d', x⟩).forget) :
    d = d' := by
  obtain ⟨hsel, hkept⟩ := h
  have hwrite : ∀ d : Word, c.writeData d x = d := fun d => by
    simp only [writeData, ExMem.writeData, hsel]
    rfl
  rcases hkept with hfree | hwe
  -- the value of the load is in MEM/WB, or else in its register
  · have hmemWb := congrArg (fun c => c.memWbQ.regWriteData) hstep
    simpa [forget, step, nextMemWb, hfree, memWbD, hwrite] using hmemWb
  · have hreg := congrArg (fun s => s.registers c.exMemQ.regWriteAddr) hstep
    simpa only [forget, step, nextRegisters, Registers.write, hwe, if_true, hwrite] using hreg

/-- When the next state, less the copy, does not tell two values of `DATA_IN` apart. -/
theorem forget_step_iff (imem : InstructionMemory) (c : CpuTop) (d d' : Word) (x : DontCare) :
    (c.step imem ⟨false, d, x⟩).forget = (c.step imem ⟨false, d', x⟩).forget
      ↔ (c.KeepsLoad → d = d') := by
  refine ⟨fun hstep hkeeps => hkeeps.dataIn_eq hstep, fun h => ?_⟩
  by_cases hkeeps : c.KeepsLoad
  · rw [h hkeeps]
  · exact forget_step_of_not_keepsLoad imem hkeeps d d' x

/-- When the next state does not tell two values of `DATA_IN` apart. -/
theorem step_eq_iff (imem : InstructionMemory) (c : CpuTop) (d d' : Word) (x : DontCare) :
    c.step imem ⟨false, d, x⟩ = c.step imem ⟨false, d', x⟩ ↔ (c.KeepsDataIn → d = d') := by
  have hcopy : (c.nextExMem ⟨false, d, x⟩).dataIn = (c.nextExMem ⟨false, d', x⟩).dataIn
      ↔ (c.stall = false → d = d') := by
    cases hstall : c.stall with
    | true => simp [nextExMem_of_stall hstall]
    | false => simp [nextExMem_of_not_stall hstall, exMemD]
  rw [eq_iff_forget, forget_step_iff]
  show _ ∧ (c.nextExMem _).dataIn = (c.nextExMem _).dataIn ↔ _
  rw [hcopy, KeepsDataIn, or_imp, and_comm]

end CpuTop

namespace System

/-- The system without the copy. -/
def forget (s : System) : System := { s with cpu := s.cpu.forget }

/-! ### What the core of the wrapper samples -/

/-- `DATA_IN` behind the edges of `DMEM` in this cycle. -/
def lateDataIn (s : System) : Word := { s with dmem := s.nextDmem }.dataIn

/-- A read request of `DMEM` leaves the formatted word as it was, while the registered read
region is `DMEM`. -/
def Undisturbed (s : System) : Prop :=
  s.interconnect.regionQ = .dmem → s.enables.dmemRden = true →
    { s.dmem with memReadWord := s.dmem.memory (wordAddress s.cpu.bus.dataAddress) }.dataOut
        s.cpu.bus.dataAddress s.cpu.bus.memData
      = s.dmem.dataOut s.cpu.bus.dataAddress s.cpu.bus.memData

/-- The late `DATA_IN` is the early one exactly in an undisturbed cycle. -/
theorem lateDataIn_eq_iff (s : System) : s.lateDataIn = s.dataIn ↔ s.Undisturbed := by
  show s.interconnect.iobusIn _ = s.interconnect.iobusIn _ ↔ _
  rw [Undisturbed]
  cases hreg : s.interconnect.regionQ with
  | none => simp [Interconnect.iobusIn, hreg]
  | mmio => simp [Interconnect.iobusIn, hreg]
  | dmem =>
      cases hrden : s.enables.dmemRden with
      | false => simp [Interconnect.iobusIn, hreg, nextDmem, Dmem.step, hrden, Dmem.dataOut]
      | true => simp [Interconnect.iobusIn, hreg, nextDmem, Dmem.step, hrden, Dmem.dataOut]

/-- A second edge of `DMEM` with the bus pins of the same cycle changes nothing: no instruction
both loads and stores. -/
theorem nextDmem_twice {s : System} (h : s.cpu.Wf) :
    { s with dmem := s.nextDmem }.nextDmem = s.nextDmem := by
  refine Dmem.step_twice s.dmem ?_ _ _ _
  simp only [enables, (enables_dmem _ _ _).1, (enables_dmem _ _ _).2, CpuTop.bus]
  -- a load does not store
  cases hrden : s.cpu.idExQ.memRden with
  | false => simp
  | true => simp [(h.coherent.load hrden).2.2.1]

/-- One core cycle of the wrapper, as a step of the system. -/
def lateStep (imem : InstructionMemory) (s : System) (i : SystemInput) : System where
  cpu := s.cpu.step imem ⟨i.rst, s.lateDataIn, DontCare.zero⟩
  interconnect := s.nextInterconnect i.switches i.buttons
  dmem := s.nextDmem

/-- Nothing reads the copy. -/
theorem lateStep_of_forget (imem : InstructionMemory) {s s' : System} (h : s.forget = s'.forget)
    (i : SystemInput) : s.lateStep imem i = s'.lateStep imem i := by
  have hstep : ∀ s : System, s.lateStep imem i = s.forget.lateStep imem i := fun _ => rfl
  rw [hstep s, hstep s', h]

/-- What is observed of the system: `CPU_TOP` with its register file, and the `DMEM` array. -/
def visible (s : System) : CpuTop × DataMemory := (s.cpu, s.dmem.memory)

/-- The two kinds of step differ in the core only. -/
theorem visible_step_iff (imem : InstructionMemory) (s : System) (i : SystemInput) :
    (s.lateStep imem i).visible = (s.step imem i).visible
      ↔ (s.lateStep imem i).cpu = (s.step imem i).cpu :=
  ⟨congrArg Prod.fst, fun h => Prod.ext h rfl⟩

/-- The same without the copy. -/
theorem visible_forget_step_iff (imem : InstructionMemory) (s : System) (i : SystemInput) :
    (s.lateStep imem i).forget.visible = (s.step imem i).forget.visible
      ↔ (s.lateStep imem i).cpu.forget = (s.step imem i).cpu.forget :=
  ⟨congrArg Prod.fst, fun h => Prod.ext h rfl⟩

/-- A run of late steps looks like a run of the system exactly when what its core keeps is
undisturbed in every cycle. -/
theorem lateRun_visible_iff (imem : InstructionMemory) (s : System) {inp : ℕ → SystemInput}
    (h : ∀ n, (inp n).rst = false) :
    (∀ n, (Clocked.run (lateStep imem) s inp n).visible = (s.run imem inp n).visible)
      ↔ ∀ n, (s.run imem inp n).cpu.KeepsDataIn → (s.run imem inp n).Undisturbed := by
  have hagree := @Clocked.run_agree_iff _ _ _ _ (lateStep imem) (System.step imem) id visible
    (fun _ _ => congrArg visible)
    (fun _ _ i hs => congrArg (lateStep imem · i) hs)
    (fun s i hs => System.ext ((visible_step_iff imem s i).mp hs) rfl rfl) s inp
  refine hagree.trans (forall_congr' fun n => ?_)
  rw [visible_step_iff, ← lateDataIn_eq_iff]
  simp only [lateStep, step, h n]
  exact CpuTop.step_eq_iff ..

/-- The same without the copy: it is enough that the value of a load is undisturbed. -/
theorem lateRun_forget_iff (imem : InstructionMemory) (s : System) {inp : ℕ → SystemInput}
    (h : ∀ n, (inp n).rst = false) :
    (∀ n, (Clocked.run (lateStep imem) s inp n).forget.visible = (s.run imem inp n).forget.visible)
      ↔ ∀ n, (s.run imem inp n).cpu.KeepsLoad → (s.run imem inp n).Undisturbed := by
  have hagree := @Clocked.run_agree_iff _ _ _ _ (lateStep imem) (System.step imem) forget
    (fun s => s.forget.visible) (fun _ _ => congrArg visible)
    (fun _ _ i hs => congrArg forget (lateStep_of_forget imem hs i))
    (fun s i hs => System.ext ((visible_forget_step_iff imem s i).mp hs) rfl rfl) s inp
  refine hagree.trans (forall_congr' fun n => ?_)
  rw [visible_forget_step_iff, ← lateDataIn_eq_iff]
  simp only [lateStep, step, h n]
  exact CpuTop.forget_step_iff ..

end System

/-! ### The core cycles of the wrapper -/

namespace McuWrapper

variable {imem : InstructionMemory} {w : McuWrapper}

/-- The system at the `n`-th rising edge of `clk_50`, from a state with `clk_50` high. -/
def observed (imem : InstructionMemory) (w : McuWrapper) (inp : ℕ → BoardInput) (n : ℕ) : System :=
  (w.run imem inp (2 * n)).system

/-- The pins of the one-clock system in core cycle `n`: the board pins at its rising edge. -/
def coreInput (inp : ℕ → BoardInput) (n : ℕ) : SystemInput :=
  ⟨false, (inp (2 * n + 1)).switches.setWidth 32, (inp (2 * n + 1)).btns.setWidth 32⟩

/-- An edge of `CLK` that lowers `clk_50` clocks `DMEM` and ends the reset. -/
theorem step_falls (hclk : w.clk50 = true) {i : BoardInput} (hb : i.btnc = false) :
    w.step imem i
      = ⟨{ w.system with dmem := w.system.nextDmem }, false, false, w.leds, w.rSseg⟩ := by
  simp [step, rises, falls, nextClk50, hclk, hb]

/-- An edge of `CLK` that raises `clk_50` clocks the core and `DMEM`. -/
theorem step_rises (hclk : w.clk50 = false) {i : BoardInput} (hb : i.btnc = false) :
    (w.step imem i).system = w.coreEdge imem i ∧ (w.step imem i).clk50 = true := by
  simp [step, rises, nextClk50, hclk, hb]

/-- Two edges of `CLK` make one core cycle. -/
theorem step_twice (hwf : w.system.cpu.Wf) (hclk : w.clk50 = true) {i j : BoardInput}
    (hi : i.btnc = false) (hj : j.btnc = false) :
    ((w.step imem i).step imem j).system
        = w.system.lateStep imem ⟨false, j.switches.setWidth 32, j.btns.setWidth 32⟩ ∧
      ((w.step imem i).step imem j).clk50 = true := by
  rw [step_falls hclk hi]
  obtain ⟨hsys, hclk'⟩ := @step_rises imem
    ⟨{ w.system with dmem := w.system.nextDmem }, false, false, w.leds, w.rSseg⟩ rfl _ hj
  refine ⟨?_, hclk'⟩
  -- the core's own edge finds `DMEM` as the first edge has left it
  rw [hsys, coreEdge, System.nextDmem_twice hwf]
  rfl

/-- The observed systems are a run of late steps. -/
theorem observed_eq (hr : CpuTop.Reachable imem w.system.cpu) (hclk : w.clk50 = true)
    {inp : ℕ → BoardInput} (hb : ∀ j, (inp j).btnc = false) (n : ℕ) :
    w.observed imem inp n
      = Clocked.run (System.lateStep imem) w.system (coreInput inp) n := by
  have hrun : (w.run imem inp (2 * n)).clk50 = true ∧
      CpuTop.Reachable imem (w.observed imem inp n).cpu ∧ w.observed imem inp n
        = Clocked.run (System.lateStep imem) w.system (coreInput inp) n := by
    induction n with
    | zero => exact ⟨hclk, hr, rfl⟩
    | succ n ih =>
        obtain ⟨hhigh, hreach, heq⟩ := ih
        obtain ⟨hsys, hhigh'⟩ :=
          @step_twice imem _ hreach.wf hhigh _ _ (hb (2 * n)) (hb (2 * n + 1))
        have hnext : w.observed imem inp (n + 1)
            = (w.observed imem inp n).lateStep imem (coreInput inp n) := hsys
        refine ⟨hhigh', ?_, by rw [hnext, heq]; rfl⟩
        rw [hnext]
        exact hreach.step false _
  exact hrun.2.2

end McuWrapper

open McuWrapper

/-- **When the two-clock memory agrees with one clock.** From any reachable core with `clk_50`
high, and with `BTNC` low, the wrapper and the one-clock system go through the same cores,
register files and `DMEM` arrays exactly when every cycle that keeps `DATA_IN` is undisturbed.
Up to the unread copy of `DATA_IN` in EX/MEM they do so exactly when every cycle that keeps the
value of a load is undisturbed. -/
theorem two_clocks_agree_iff (imem : InstructionMemory) {w : McuWrapper}
    (hr : CpuTop.Reachable imem w.system.cpu) (hclk : w.clk50 = true) {inp : ℕ → BoardInput}
    (hb : ∀ j, (inp j).btnc = false) :
    ((∀ n, (w.observed imem inp n).visible = (w.system.run imem (coreInput inp) n).visible)
      ↔ ∀ n, (w.system.run imem (coreInput inp) n).cpu.KeepsDataIn →
          (w.system.run imem (coreInput inp) n).Undisturbed) ∧
    ((∀ n, (w.observed imem inp n).forget.visible
        = (w.system.run imem (coreInput inp) n).forget.visible)
      ↔ ∀ n, (w.system.run imem (coreInput inp) n).cpu.KeepsLoad →
          (w.system.run imem (coreInput inp) n).Undisturbed) := by
  simp only [observed_eq hr hclk hb]
  exact ⟨w.system.lateRun_visible_iff imem fun _ => rfl,
    w.system.lateRun_forget_iff imem fun _ => rfl⟩

/-- `lw x1, 0(x2)`, `lw x3, 4(x2)` and `ecall`. With two equal words there the second load disturbs
nothing, and the wrapper agrees with one clock for ever. With two different words it does not. -/
theorem two_clocks_agree_iff_loads :
    let imem : InstructionMemory := fun a =>
      if a = 0#13 then 0x00012083#32 else if a = 1#13 then 0x00412183#32
      else if a = 2#13 then 0x00000073#32 else 0x00000013#32
    let w (b : Word) : McuWrapper :=
      ⟨⟨(CpuTop.outOfReset imem fun _ => 0x00003F60#32).step imem (CpuInput.reset 0#32),
        ⟨.none, 0#32⟩, ⟨fun a => if a = 0#11 then 0x11111111#32 else b, 0#32⟩⟩,
        true, false, 0#16, 0#16⟩
    let inp : ℕ → BoardInput := fun _ => ⟨false, 0#4, 0#16⟩
    (∀ n, ((w 0x11111111#32).observed imem inp n).visible
        = ((w 0x11111111#32).system.run imem (coreInput inp) n).visible) ∧
      ¬ ∀ n, ((w 0x22222222#32).observed imem inp n).forget.visible
        = ((w 0x22222222#32).system.run imem (coreInput inp) n).forget.visible := by
  intro imem w inp
  constructor
  · refine (two_clocks_agree_iff imem (w := w 0x11111111#32) (.reset _ _) rfl fun _ => rfl).1.mpr
      fun n _ => ?_
    let i : SystemInput := coreInput inp 0
    let s : ℕ → System :=
      Clocked.run (System.step imem) (w 0x11111111#32).system fun _ => i
    -- the halted core repeats one state
    have hmemory : ∀ t : System, t.enables.dmemWe = false →
        (t.step imem i).dmem.memory = t.dmem.memory := fun t h => by
      simp [System.step, System.nextDmem, Dmem.step, h]
    have hloop : s (11 + 1) = s 11 := by
      have hregs : ∀ r, (s 12).cpu.registers r = (s 11).cpu.registers r := by decide +kernel
      refine (Clocked.run_succ (System.step imem) (w 0x11111111#32).system _ 11).trans ?_
      refine System.ext (CpuTop.ext ?_ ?_ ?_ ?_ ?_ ?_ ?_ (funext hregs))
        (Interconnect.ext ?_ ?_) (Dmem.ext (hmemory (s 11) ?_) ?_)
      all_goals decide +kernel
    obtain ⟨m, hm, hrun⟩ := Clocked.exists_run_eq_of_loop (by decide : 0 < 1) hloop n
    have hall : ∀ m < 11 + 1, (s m).lateDataIn = (s m).dataIn := by decide +kernel
    exact (congrArg System.Undisturbed hrun).mpr ((System.lateDataIn_eq_iff _).mp (hall m hm))
  · intro hagree
    have hundisturbed := (two_clocks_agree_iff imem (.reset _ _) rfl fun _ => rfl).2.mp hagree 3
      ⟨by decide +kernel, .inl (by decide +kernel)⟩
    exact absurd (hundisturbed (by decide +kernel) (by decide +kernel)) (by decide +kernel)

/-- With two different words `x1` gets the word of the second load. -/
theorem two_clocks_disagree :
    ¬ ∀ (imem : InstructionMemory) (w : McuWrapper) (inp : ℕ → BoardInput),
      CpuTop.Reachable imem w.system.cpu → w.clk50 = true → (∀ j, (inp j).btnc = false) →
      ∀ n, (w.observed imem inp n).visible
        = (w.system.run imem (coreInput inp) n).visible := by
  intro hall
  let imem : InstructionMemory := fun a => if a = 0#13 then 0x00012083#32 else 0x00412183#32
  let w : McuWrapper :=
    ⟨⟨(CpuTop.outOfReset imem fun _ => 0x00003F60#32).step imem (CpuInput.reset 0#32),
      ⟨.none, 0#32⟩, ⟨fun a => if a = 0#11 then 0x11111111#32 else 0x22222222#32, 0#32⟩⟩,
      true, false, 0#16, 0#16⟩
  let inp : ℕ → BoardInput := fun _ => ⟨false, 0#4, 0#16⟩
  have hagree := hall imem w inp (.reset _ _) rfl (fun _ => rfl) 4
  have htwo : (w.observed imem inp 4).cpu.registers 1#5 = 0x22222222#32 := by decide +kernel
  have hone : (w.system.run imem (coreInput inp) 4).cpu.registers 1#5 = 0x11111111#32 := by
    decide +kernel
  have hx1 := congrArg (fun v => v.1.registers 1#5) hagree
  exact absurd (htwo.symm.trans (hx1.trans hone)) (by decide)

end Rv32iPipeline
