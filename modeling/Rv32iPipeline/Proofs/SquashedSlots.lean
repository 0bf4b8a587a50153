import Rv32iPipeline.Proofs.Reset

/-!
# `Rv32iPipeline.Proofs.SquashedSlots`: zero words under any resolution of `'X`

A flush or a reset puts a zero word into IF/ID, and a freeze puts one into the `IMEM` register.
The decoder takes its `default` arm for it, which drives the outputs to `'X`. Here each of those
bits may take any value in each cycle. `ZeroSlots` marks these words from where they are put in
up to WB. It follows the pipeline registers and never feeds back. A zero word of the program,
fetched from the instruction memory, gets no mark.

Some of what a marked slot could do is excluded by its register numbers, which are all zero:
it never writes a register and never changes an operand (`ZeroOk`). The rest depends on the
resolution. `squashed_slots_inert_iff` says which resolutions keep every slot inert over a
whole run: `memWE`, `branch_i`, `jal_i` and `jalr_i` read as 0, and no load-use match with a
marked word on either side.
-/

set_option autoImplicit false

namespace Rv32iPipeline

open CpuTop Clocked

/-! ### The slots -/

/-- Which registers hold a zero word that a flush, a reset or a freeze has put in. -/
structure ZeroSlots where
  ir : Bool
  ifId : Bool
  idEx : Bool
  exMem : Bool
  memWb : Bool

/-- No register does. -/
def ZeroSlots.none : ZeroSlots := ⟨false, false, false, false, false⟩

/-- The marks move with the pipeline registers of `s`. A freeze marks the `IMEM` register where it
puts in the zero word, and a flush or a reset marks IF/ID. The cleared ID/EX and EX/MEM hold no
decoded word. -/
def ZeroSlots.step (s : CpuTop) (rst : Bool) (t : ZeroSlots) : ZeroSlots where
  -- the branches of `IMEM`
  ir :=
    if s.hazard.flushIfId && !s.forwarding.stallIfId then false
    else if s.forwarding.stallIfId then t.ir
    else s.freeze
  ifId := (rst || s.hazard.flushIfId) || if s.forwarding.stallIfId then t.ifId else t.ir
  idEx := !(rst || s.hazard.flushIdEx) && if s.forwarding.stallIdEx then t.idEx else t.ifId
  exMem := !(rst || s.forwarding.flushExMem) && t.idEx
  memWb := !rst && if s.haltSig || s.memWbQ.trap then t.memWb else t.exMem

/-- The core and the marks, under any inputs. -/
def slotRun (imem : InstructionMemory) (s : CpuTop) (t : ZeroSlots) (inp : ℕ → CpuInput) (n : ℕ) :
    CpuTop × ZeroSlots :=
  run (fun st i => (st.1.step imem i, st.2.step st.1 i.rst)) (s, t) inp n

/-- The core with empty slots in the place of the marked words behind EX. -/
def CpuTop.withEmpty (s : CpuTop) (t : ZeroSlots) : CpuTop :=
  { s with
      exMemQ := if t.exMem then ExMem.zero else s.exMemQ
      memWbQ := if t.memWb then MemWb.zero else s.memWbQ }

/-- No marked word acts in this cycle: on a register, on the bus, on the fetch, with a flush, or
on the operands of the instruction in EX. -/
structure SlotsInert (s : CpuTop) (t : ZeroSlots) (i : CpuInput) : Prop where
  registers : t.exMem = true → s.nextRegisters i.dataIn i.x = s.registers
  bus : t.idEx = true → s.bus.iobusWe = false
  pcSel : t.idEx = true → s.pcSel = pcPc4
  hazard : t.idEx = true → s.hazard = ⟨false, false⟩
  flushExMem : t.idEx = true ∨ t.exMem = true → s.forwarding.flushExMem = false
  operands : s.realRs1 = (s.withEmpty t).realRs1 ∧ s.realRs2 = (s.withEmpty t).realRs2

/-- The resolution of this cycle is harmless, for an edge that moves IF/ID into ID/EX. A marked
word in IF/ID must get 0 for the four bits that act by themselves. A marked word on either side
of ID/EX must not take part in a load-use match. -/
def Resolved (s : CpuTop) (t : ZeroSlots) (i : CpuInput) : Prop :=
  i.rst = false → s.stall = false → s.flush = false →
    (t.ifId = true → i.x.memWe = false ∧ i.x.branchI = false ∧ i.x.jalI = false ∧
      i.x.jalrI = false) ∧
    (t.ifId = true ∨ t.idEx = true →
      (s.idExQ.rfWe && s.idExQ.loadUse (idExD s.ifIdQ s.registers i.x)) = false)

/-! ### What the register numbers exclude -/

/-- A marked word is zero, also in the register number that it carries behind ID, and an operand
read from `x0` is zero. -/
structure ZeroOk (s : CpuTop) (t : ZeroSlots) : Prop where
  rs1 : s.idExQ.rs1Addr = 0#5 → s.idExQ.rs1 = 0#32
  rs2 : s.idExQ.rs2Addr = 0#5 → s.idExQ.rs2 = 0#32
  ir : t.ir = true → s.ir = 0#32
  ifId : t.ifId = true → s.ifIdQ.ir = 0#32
  idEx : t.idEx = true → s.idExQ.regWriteAddr = 0#5
  exMem : t.exMem = true → s.exMemQ.regWriteAddr = 0#5
  memWb : t.memWb = true → s.memWbQ.regWriteAddr = 0#5

section
variable {imem : InstructionMemory} {s : CpuTop} {t : ZeroSlots} {i : CpuInput}

/-- A mark on the `IMEM` register is on a zero word: it comes with the word of a freeze, or a stall
has kept both. -/
theorem ZeroSlots.ir_step (h : t.ir = true → s.ir = 0#32) (imem : InstructionMemory) (i : CpuInput)
    (ht : (t.step s i.rst).ir = true) : (s.step imem i).ir = 0#32 := by
  show (s.nextFetch imem i.rst).1 = 0#32
  unfold nextFetch
  simp only [ZeroSlots.step] at ht
  split at ht
  · exact absurd ht Bool.false_ne_true
  · rename_i hflush
    rw [if_neg hflush]
    split at ht
    · rename_i hstall
      rw [if_pos hstall]
      exact h ht
    · rename_i hstall
      rw [if_neg hstall, if_pos ht]

/-- An edge with `RST` high establishes it. -/
theorem zeroOk_step_reset (imem : InstructionMemory) (s : CpuTop) (d : Word) (x : DontCare) :
    ZeroOk (s.step imem ⟨true, d, x⟩) (ZeroSlots.none.step s true) where
  rs1 _ := by rw [step_reset]; rfl
  rs2 _ := by rw [step_reset]; rfl
  ir := ZeroSlots.ir_step (fun hc => absurd hc Bool.false_ne_true) imem ⟨true, d, x⟩
  ifId _ := by rw [step_reset]; rfl
  idEx hc := absurd hc (by simp [ZeroSlots.step])
  exMem hc := absurd hc (by simp [ZeroSlots.step])
  memWb hc := absurd hc (by simp [ZeroSlots.step])

/-- The operands that ID/EX takes for `x0` are zero. -/
theorem ZeroOk.operands_step (h : ZeroOk s t) (i : CpuInput) :
    ((s.nextIdEx i).rs1Addr = 0#5 → (s.nextIdEx i).rs1 = 0#32) ∧
      ((s.nextIdEx i).rs2Addr = 0#5 → (s.nextIdEx i).rs2 = 0#32) := by
  unfold nextIdEx
  split
  · exact ⟨fun _ => rfl, fun _ => rfl⟩
  · split
    · -- a stall captures the forwarded values
      refine ⟨fun h0 => ?_, fun h0 => ?_⟩
      · show s.realRs1 = 0#32
        rw [realRs1_eq, show s.idExQ.rs1Addr = 0#5 from h0]
        exact forwarded_x0 s _ (h.rs1 h0)
      · show s.realRs2 = 0#32
        rw [realRs2_eq, show s.idExQ.rs2Addr = 0#5 from h0]
        exact forwarded_x0 s _ (h.rs2 h0)
    · refine ⟨fun h0 => ?_, fun h0 => ?_⟩
      · show s.registers.read (rs1Of s.ifIdQ.ir) = 0#32
        rw [show rs1Of s.ifIdQ.ir = 0#5 from h0, Registers.read_zero]
      · show s.registers.read (rs2Of s.ifIdQ.ir) = 0#32
        rw [show rs2Of s.ifIdQ.ir = 0#5 from h0, Registers.read_zero]

/-- Every edge keeps it, under any resolution. -/
theorem ZeroOk.step (h : ZeroOk s t) (imem : InstructionMemory) (i : CpuInput) :
    ZeroOk (s.step imem i) (t.step s i.rst) where
  rs1 := (h.operands_step i).1
  rs2 := (h.operands_step i).2
  ir := ZeroSlots.ir_step h.ir imem i
  ifId ht := by
    show (s.nextIfId i.rst).ir = 0#32
    unfold nextIfId
    simp only [ZeroSlots.step, Bool.or_eq_true] at ht
    split
    · rfl
    · rename_i hclear
      have ht' := ht.resolve_left (by simpa using hclear)
      split at ht'
      · rename_i hstall
        rw [if_pos hstall]
        exact h.ifId ht'
      · rename_i hstall
        rw [if_neg hstall]
        exact h.ir ht'
  idEx ht := by
    show (s.nextIdEx i).regWriteAddr = 0#5
    simp only [ZeroSlots.step, Bool.and_eq_true, Bool.not_eq_true'] at ht
    rw [nextIdEx, if_neg (by simp [ht.1])]
    have ht2 := ht.2
    split at ht2
    · rename_i hs
      rw [if_pos hs]
      exact h.idEx ht2
    · rename_i hs
      rw [if_neg hs]
      show rdOf s.ifIdQ.ir = 0#5
      rw [h.ifId ht2]
      rfl
  exMem ht := by
    show (s.nextExMem i).regWriteAddr = 0#5
    simp only [ZeroSlots.step, Bool.and_eq_true, Bool.not_eq_true', Bool.or_eq_false_iff] at ht
    rw [nextExMem, if_neg (by simp [ht.1.1]), if_neg (by simp [ht.1.2])]
    exact h.idEx ht.2
  memWb ht := by
    show (s.nextMemWb i).regWriteAddr = 0#5
    simp only [ZeroSlots.step, Bool.and_eq_true, Bool.not_eq_true'] at ht
    rw [nextMemWb, if_neg (by simp [ht.1])]
    have ht2 := ht.2
    split at ht2
    · rename_i hs
      rw [if_pos hs]
      exact h.memWb ht2
    · rename_i hs
      rw [if_neg hs]
      exact h.exMem ht2

/-- A marked word in MEM writes no register. -/
theorem ZeroOk.nextRegisters_eq (h : ZeroOk s t) (ht : t.exMem = true) (d : Word)
    (x : DontCare) : s.nextRegisters d x = s.registers := by
  rw [nextRegisters, h.exMem ht, Registers.write_x0]

/-- A marked word behind EX changes no operand: it can only match `x0`, and that reads zero
either way. -/
theorem ZeroOk.forwarded_withEmpty (h : ZeroOk s t) {adr : BitVec 5} (used : Bool) {v : Word}
    (hv : adr = 0#5 → v = 0#32) :
    s.forwarded adr used v = (s.withEmpty t).forwarded adr used v := by
  by_cases h0 : adr = 0#5
  · subst h0
    rw [forwarded_x0 s used (hv rfl), forwarded_x0 (s.withEmpty t) used (hv rfl)]
  · have hmem : t.exMem = true → (adr == s.exMemQ.regWriteAddr) = false := fun hm => by
      simpa [h.exMem hm] using h0
    have hwb : t.memWb = true → (adr == s.memWbQ.regWriteAddr) = false := fun hw => by
      simpa [h.memWb hw] using h0
    -- a marked slot does not match, and an empty one does not forward
    cases hm : t.exMem with
    | false =>
        cases hw : t.memWb with
        | false => simp [forwarded, withEmpty, hm, hw]
        | true =>
            simp only [forwarded, withEmpty, forwardSel, h0, hm, hw, hwb hw, MemWb.zero,
              Bool.false_and, Bool.and_false, Bool.false_eq_true, if_false, if_true]
            split <;> rfl
    | true =>
        cases hw : t.memWb with
        | false =>
            simp only [forwarded, withEmpty, forwardSel, h0, hm, hw, hmem hm, ExMem.zero,
              Bool.false_and, Bool.and_false, Bool.false_eq_true, if_false, if_true]
            split <;> rfl
        | true =>
            simp [forwarded, withEmpty, forwardSel, hm, hw, hmem hm, hwb hw, ExMem.zero,
              MemWb.zero]

/-- Both operands of the instruction in EX are what they are with empty slots behind it. -/
theorem ZeroOk.operands (h : ZeroOk s t) :
    s.realRs1 = (s.withEmpty t).realRs1 ∧ s.realRs2 = (s.withEmpty t).realRs2 :=
  ⟨h.forwarded_withEmpty _ h.rs1, h.forwarded_withEmpty _ h.rs2⟩

/-! ### What the resolution decides -/

/-- The part of `SlotsInert` that the resolution decides. -/
structure ExInert (s : CpuTop) (t : ZeroSlots) : Prop where
  bus : t.idEx = true → s.bus.iobusWe = false
  pcSel : t.idEx = true → s.pcSel = pcPc4
  hazard : t.idEx = true → s.hazard = ⟨false, false⟩
  flushExMem : t.idEx = true ∨ t.exMem = true → s.forwarding.flushExMem = false

theorem ZeroOk.slotsInert_iff (h : ZeroOk s t) (i : CpuInput) :
    SlotsInert s t i ↔ ExInert s t :=
  ⟨fun hs => ⟨hs.bus, hs.pcSel, hs.hazard, hs.flushExMem⟩,
    fun he => ⟨fun ht => h.nextRegisters_eq ht _ _, he.bus, he.pcSel, he.hazard, he.flushExMem,
      h.operands⟩⟩

/-- A zero word names `x0` three times and carries the resolved control bits. -/
theorem idExD_zeroWord {q : IfId} (hq : q.ir = 0#32) (regs : Registers) (x : DontCare) :
    (idExD q regs x).rs1Addr = 0#5 ∧ (idExD q regs x).rs2Addr = 0#5 ∧
      (idExD q regs x).func3 = 0b000#3 ∧ (idExD q regs x).trap = false ∧
      (idExD q regs x).memWe = x.memWe ∧ (idExD q regs x).branchI = x.branchI ∧
      (idExD q regs x).jalI = x.jalI ∧ (idExD q regs x).jalrI = x.jalrI := by
  have hop : opcodeOf q.ir = 0b0000000#7 := by rw [hq]; rfl
  simp only [idExD, hop]
  rw [hq]
  exact ⟨rfl, rfl, rfl, rfl, rfl, rfl, rfl, rfl⟩

/-- A zero word in EX that is not stalled is inert exactly when its four bits are 0. A raised
`branch_i` alone is a `BEQ` of `x0` with `x0`, which is taken. -/
theorem zeroWord_inert_iff (h : ZeroOk s t) {q : IfId} (hq : q.ir = 0#32) {regs : Registers}
    {x : DontCare} (hid : s.idExQ = idExD q regs x) (hs : s.stall = false) :
    (s.bus.iobusWe = false ∧ s.pcSel = pcPc4 ∧ s.hazard = ⟨false, false⟩)
      ↔ x.memWe = false ∧ x.branchI = false ∧ x.jalI = false ∧ x.jalrI = false := by
  obtain ⟨haddr1, haddr2, hf3, htrap, hmw, hb, hj, hjr⟩ := idExD_zeroWord hq regs x
  rw [← hid] at haddr1 haddr2 hf3 htrap hmw hb hj hjr
  have h1 : s.realRs1 = 0#32 := by
    rw [realRs1_eq, haddr1]
    exact forwarded_x0 s _ (h.rs1 haddr1)
  have h2 : s.realRs2 = 0#32 := by
    rw [realRs2_eq, haddr2]
    exact forwarded_x0 s _ (h.rs2 haddr2)
  have hwe : s.bus.iobusWe = x.memWe := by simp [CpuTop.bus, flushExMem_eq, hs, hmw]
  have hsel : s.pcSel = pcDecoder (branchConditionGenerator 0#32 0#32) x.branchI x.jalI x.jalrI
      0b000#3 := by
    rw [CpuTop.pcSel, IdEx.pcSel, h1, h2, hb, hj, hjr, hf3]
  have hflush : s.flush = (x.jalI || x.jalrI || (x.branchI && s.pcSel == pcBranch)) := by
    rw [flush, hs, htrap, IdEx.taken, ← CpuTop.pcSel, hb, hj, hjr]
    simp
  rw [hwe, hazard_eq, hflush, hsel]
  -- with `x0` on both ports the comparator is constant: a table of four bits
  cases x.memWe <;> cases x.branchI <;> cases x.jalI <;> cases x.jalrI <;> decide

/-- Without a marked word in EX only a stall could harm. -/
theorem exInert_of_unmarked (hid : t.idEx = false) (hmem : t.exMem = true → s.stall = false) :
    ExInert s t where
  bus hc := absurd (hid.symm.trans hc) Bool.false_ne_true
  pcSel hc := absurd (hid.symm.trans hc) Bool.false_ne_true
  hazard hc := absurd (hid.symm.trans hc) Bool.false_ne_true
  flushExMem hc := hmem (hc.resolve_left fun hc => absurd (hid.symm.trans hc) Bool.false_ne_true)

/-- An edge that moves every slot on: the marked words of the next cycle are inert exactly when
this cycle's resolution is harmless. -/
theorem ZeroOk.exInert_advance_iff (h : ZeroOk s t) (imem : InstructionMemory) (d : Word)
    (x : DontCare) (hs : s.stall = false) (hf : s.flush = false) :
    ExInert (s.step imem ⟨false, d, x⟩) (t.step s false) ↔ Resolved s t ⟨false, d, x⟩ := by
  have ht1 : (t.step s false).idEx = true ↔ t.ifId = true := by
    simp [ZeroSlots.step, hazard_eq, hf, stallIdEx_eq, hs]
  have ht2 : (t.step s false).exMem = true ↔ t.idEx = true := by
    simp [ZeroSlots.step, flushExMem_eq, hs]
  have hid : (s.step imem ⟨false, d, x⟩).idExQ = idExD s.ifIdQ s.registers x :=
    nextIdEx_of_advance hs hf d x
  have hmem : (s.step imem ⟨false, d, x⟩).exMemQ = exMemD s.idExQ s.aluResult d :=
    nextExMem_of_not_stall hs d x
  have hstall := stall_behind hid hmem
  have hword : t.ifId = true → (s.step imem ⟨false, d, x⟩).stall = false → _ := fun hq =>
    zeroWord_inert_iff (h.step imem ⟨false, d, x⟩) (h.ifId hq) hid
  constructor
  · intro he _ _ _
    have hstall' : t.ifId = true ∨ t.idEx = true →
        (s.step imem ⟨false, d, x⟩).stall = false := fun hc =>
      he.flushExMem (hc.imp ht1.mpr ht2.mpr)
    refine ⟨fun hq => (hword hq (hstall' (.inl hq))).mp ?_, fun hc => hstall ▸ hstall' hc⟩
    exact ⟨he.bus (ht1.mpr hq), he.pcSel (ht1.mpr hq), he.hazard (ht1.mpr hq)⟩
  · intro hr
    obtain ⟨hbits, huse⟩ := hr rfl hs hf
    have hstall' : t.ifId = true ∨ t.idEx = true →
        (s.step imem ⟨false, d, x⟩).stall = false := fun hc => hstall.trans (huse hc)
    have hinert := fun hq : t.ifId = true =>
      (hword hq (hstall' (.inl hq))).mpr (hbits hq)
    exact ⟨fun hc => (hinert (ht1.mp hc)).1, fun hc => (hinert (ht1.mp hc)).2.1,
      fun hc => (hinert (ht1.mp hc)).2.2, fun hc => hstall' (hc.imp ht1.mp ht2.mp)⟩

/-- One edge: the slots of the next cycle are inert exactly when this cycle's resolution is
harmless. Only an edge that moves every slot on can bring a marked word into EX. -/
theorem ZeroOk.exInert_step_iff (h : ZeroOk s t) (he : ExInert s t) (imem : InstructionMemory)
    (i : CpuInput) : ExInert (s.step imem i) (t.step s i.rst) ↔ Resolved s t i := by
  obtain ⟨rst, d, x⟩ := i
  cases rst with
  | true =>
      refine iff_of_true ?_ fun hr => absurd hr.symm Bool.false_ne_true
      exact exInert_of_unmarked (by simp [ZeroSlots.step]) (by simp [ZeroSlots.step])
  | false =>
      cases hs : s.stall with
      | true =>
          -- no marked word is in EX during a stall
          have hid : t.idEx = false := Bool.eq_false_iff.mpr fun hc =>
            absurd (hs.symm.trans (he.flushExMem (.inl hc))) (by decide)
          refine iff_of_true ?_ fun _ hc => absurd (hs.symm.trans hc) (by decide)
          exact exInert_of_unmarked (by simp [ZeroSlots.step, stallIdEx_eq, hs, hid])
            (by simp [ZeroSlots.step, hid])
      | false =>
          cases hf : s.flush with
          | true =>
              -- a flush clears ID/EX
              refine iff_of_true ?_ fun _ _ hc => absurd (hf.symm.trans hc) (by decide)
              refine exInert_of_unmarked (by simp [ZeroSlots.step, hazard_eq, hf]) fun _ => ?_
              exact stall_of_idEx_zero (by rw [step_flush imem d x hf])
          | false => exact h.exInert_advance_iff imem d x hs hf

end

/-! ### The run -/

/-- The marks and the core stay consistent over a run from reset. -/
theorem zeroOk_slotRun (imem : InstructionMemory) (s : CpuTop) (d : Word) (x : DontCare)
    (inp : ℕ → CpuInput) (n : ℕ) :
    ZeroOk (slotRun imem (s.step imem ⟨true, d, x⟩) (ZeroSlots.none.step s true) inp n).1
      (slotRun imem (s.step imem ⟨true, d, x⟩) (ZeroSlots.none.step s true) inp n).2 := by
  induction n with
  | zero => exact zeroOk_step_reset imem s d x
  | succ n ih => exact ih.step imem (inp n)

/-- **When squashed slots are inert.** From any edge with `RST` high on, and over any run with any
inputs and any resolution of `'X`, every zero word that a flush, a reset or a freeze puts in is
inert in every cycle exactly when the resolution is harmless in every cycle. -/
theorem squashed_slots_inert_iff (imem : InstructionMemory) (s : CpuTop) (d : Word)
    (x : DontCare) (inp : ℕ → CpuInput) :
    let st := slotRun imem (s.step imem ⟨true, d, x⟩) (ZeroSlots.none.step s true) inp
    (∀ n, SlotsInert (st n).1 (st n).2 (inp n)) ↔ ∀ n, Resolved (st n).1 (st n).2 (inp n) := by
  intro st
  have hok : ∀ n, ZeroOk (st n).1 (st n).2 := zeroOk_slotRun imem s d x inp
  have hstep : ∀ n, ExInert (st n).1 (st n).2 →
      (ExInert (st (n + 1)).1 (st (n + 1)).2 ↔ Resolved (st n).1 (st n).2 (inp n)) :=
    fun n he => (hok n).exInert_step_iff he imem (inp n)
  simp only [fun n => (hok n).slotsInert_iff (inp n)]
  constructor
  · exact fun he n => (hstep n (he n)).mp (he (n + 1))
  · intro hr n
    induction n with
    | zero =>
        -- the reset has cleared ID/EX and EX/MEM
        exact exInert_of_unmarked rfl fun hc => absurd hc Bool.false_ne_true
    | succ n ih => exact (hstep n ih).mpr (hr n)

/-- The zero word that a reset has put into IF/ID stores, if `memWE` is read as 1. -/
theorem squashed_slots_not_inert :
    ¬ ∀ (imem : InstructionMemory) (s : CpuTop) (d : Word) (x : DontCare) (inp : ℕ → CpuInput)
      (n : ℕ),
      let st := slotRun imem (s.step imem ⟨true, d, x⟩) (ZeroSlots.none.step s true) inp
      SlotsInert (st n).1 (st n).2 (inp n) := by
  intro hall
  let imem : InstructionMemory := fun _ => 0x00000013#32
  let s := outOfReset imem fun _ => 0#32
  let x : DontCare := { DontCare.zero with memWe := true }
  have hinert := (hall imem s 0#32 DontCare.zero (fun _ => ⟨false, 0#32, x⟩) 1).bus
    (by decide +kernel)
  have hstore : (slotRun imem (s.step imem ⟨true, 0#32, DontCare.zero⟩)
      (ZeroSlots.none.step s true) (fun _ => ⟨false, 0#32, x⟩) 1).1.bus.iobusWe = true := by
    decide +kernel
  exact absurd (hstore.symm.trans hinert) (by decide)

/-- A zero word of the program is no squashed slot: fetched from address 0 it is in IF/ID without
a mark, behind the word that the reset has put in. -/
example :
    let imem : InstructionMemory := fun a => if a = 0#13 then 0#32 else 0x00000013#32
    let s := outOfReset imem fun _ => 0#32
    let st := slotRun imem (s.step imem ⟨true, 0#32, DontCare.zero⟩) (ZeroSlots.none.step s true)
      fun _ => CpuInput.run 0#32
    (st 1).2.idEx = true ∧ (st 1).1.ifIdQ.ir = 0#32 ∧ (st 1).2.ifId = false := by
  decide +kernel

end Rv32iPipeline
