import Rv32iPipeline.Proofs.LoadData
import Rv32iPipeline.Rtl.McuWrapper

/-!
# `Rv32iPipeline.Proofs.MemoryMap`: loads and stores of the memory-mapped devices

The documented map has the switches at `0x11000000`, the LEDs at `0x11000020`, the seven-segment
display at `0x11000040`, the buttons at `0x11000080`, and `DMEM` from `0x3F60` up. `Interconnect`
has its write enables there. It answers a read of `0x11000020` with the buttons, a read of
`0x11000040` with the switches, and a read of any other MMIO address with zero.

* `Interconnect.memory_map_iff`: a run of the bus fabric follows the documented map exactly when
  every device that one of its reads finds at a wrong address reads zero in that cycle.
* `mmio_load_extended_iff`: a sub-word load of an MMIO address writes the whole register to `rd`.
  That is the extension of the addressed lane exactly when the register is in the range of the
  load, or `rd` is `x0`.
-/

set_option autoImplicit false

namespace Rv32iPipeline

open CpuTop Clocked

/-! ### The bus fabric -/

/-- The pins of the bus fabric in one cycle of the core: the request, the board inputs and the
data of `DMEM`. -/
structure BusCycle where
  address : Word
  we : Bool
  rden : Bool
  switches : BitVec 16
  btns : BitVec 4
  dmemData : Word

namespace Interconnect

/-- One rising edge, with the board inputs zero-extended as `MCU_WRAPPER` wires them. -/
def cycle (q : Interconnect) (i : BusCycle) : Interconnect :=
  q.step i.address i.rden (i.switches.setWidth 32) (i.btns.setWidth 32)

/-- The run of the fabric. -/
def run (q : Interconnect) (inp : ℕ → BusCycle) (n : ℕ) : Interconnect := Clocked.run cycle q inp n

end Interconnect

/-- The core edge of the wrapper is one cycle of the fabric, with the request in EX. -/
theorem McuWrapper.coreEdge_interconnect (imem : InstructionMemory) (w : McuWrapper)
    (i : BoardInput) (dmemData : Word) :
    (w.coreEdge imem i).interconnect = w.system.interconnect.cycle
      ⟨w.system.cpu.bus.dataAddress, w.system.cpu.bus.iobusWe, w.system.cpu.bus.iobusRden,
        i.switches, i.btns, dmemData⟩ := rfl

/-! ### The documented map -/

/-- The answer to a read, by the documented map. -/
def mappedRead (address switches buttons dmemData : Word) : Word :=
  if address = 0x11000000#32 then switches
  else if address = 0x11000080#32 then buttons
  else if 0x11000000#32 ≤ address then 0#32
  else if 0x00003f60#32 ≤ address then dmemData
  else 0#32

/-- The enable of a write, by the documented map. -/
structure MappedWrite (address : Word) (we : Bool) (e : Enables) : Prop where
  leds : e.ledsWe = (we && address == 0x11000020#32)
  sseg : e.ssegWe = (we && address == 0x11000040#32)
  dmem : e.dmemWe = (we && isDmem address)

/-- Cycle `n` of the run follows the documented map: a write enables its device, and a read is
answered in the next cycle. -/
structure Interconnect.MappedAt (q : Interconnect) (inp : ℕ → BusCycle) (n : ℕ) : Prop where
  write : MappedWrite (inp n).address (inp n).we
    (enables (inp n).address (inp n).we (inp n).rden)
  read : (inp n).rden = true → (q.run inp (n + 1)).iobusIn (inp (n + 1)).dmemData
    = mappedRead (inp n).address ((inp n).switches.setWidth 32) ((inp n).btns.setWidth 32)
        (inp (n + 1)).dmemData

/-- A device whose read address differs between the map and `Interconnect` reads zero when either
address is read. -/
@[mk_iff] structure BusCycle.MisplacedReadZero (i : BusCycle) : Prop where
  switches : i.address = 0x11000000#32 ∨ i.address = 0x11000040#32 → i.switches = 0#16
  buttons : i.address = 0x11000080#32 ∨ i.address = 0x11000020#32 → i.btns = 0#4

/-! ### What `Interconnect` does -/

/-- The value that a read of an MMIO address registers. -/
def mmioValue (address switches buttons : Word) : Word :=
  if address = 0x11000020#32 then buttons
  else if address = 0x11000040#32 then switches
  else 0#32

/-- The answer to a read depends on the request, the board inputs of its cycle, and the `DMEM` data
of the next one. -/
theorem Interconnect.iobusIn_read (q : Interconnect) (address switches buttons dmemData : Word) :
    (q.step address true switches buttons).iobusIn dmemData
      = if 0x11000000#32 ≤ address then mmioValue address switches buttons
        else if 0x00003f60#32 ≤ address then dmemData else 0#32 := by
  rw [step, if_pos rfl]
  by_cases hio : 0x11000000#32 ≤ address
  · rw [if_pos hio, if_pos hio]
    rfl
  · rw [if_neg hio, if_neg hio]
    by_cases hd : 0x00003f60#32 ≤ address
    · rw [if_pos hd, if_pos hd]
      rfl
    · rw [if_neg hd, if_neg hd]
      rfl

/-- The write enables are those of the map, for every request. -/
theorem Interconnect.mappedWrite_enables (address : Word) (we rden : Bool) :
    MappedWrite address we (enables address we rden) where
  leds := by
    unfold enables
    by_cases hled : address = 0x11000020#32
    · subst hled
      simp
    · -- no other arm raises this enable
      rw [beq_false_of_ne hled, Bool.and_false, if_neg hled]
      repeat' split
      all_goals rfl
  sseg := by
    unfold enables
    by_cases hseg : address = 0x11000040#32
    · subst hseg
      simp
    · rw [beq_false_of_ne hseg, Bool.and_false, if_neg hseg]
      repeat' split
      all_goals rfl
  dmem := (enables_dmem address we rden).1

/-- A zero-extended input is zero only if the input is. -/
theorem setWidth_eq_zero_iff {k w : ℕ} (h : k ≤ w) (v : BitVec k) :
    v.setWidth w = 0#w ↔ v = 0#k := by
  rw [← BitVec.toNat_inj, ← BitVec.toNat_inj, BitVec.toNat_setWidth_of_le h]
  rfl

/-- One read follows the map exactly when no device with a value is misplaced in it. -/
theorem mappedRead_iff (i : BusCycle) (dmemData : Word) :
    (if 0x11000000#32 ≤ i.address then
        mmioValue i.address (i.switches.setWidth 32) (i.btns.setWidth 32)
      else if 0x00003f60#32 ≤ i.address then dmemData else 0#32)
        = mappedRead i.address (i.switches.setWidth 32) (i.btns.setWidth 32) dmemData
      ↔ i.MisplacedReadZero := by
  have hsw := setWidth_eq_zero_iff (w := 32) (by decide) i.switches
  have hbt := setWidth_eq_zero_iff (w := 32) (by decide) i.btns
  rw [BusCycle.misplacedReadZero_iff]
  by_cases h00 : i.address = 0x11000000#32
  -- the map has the switches here, and zero is answered
  · simp [h00, mmioValue, mappedRead, eq_comm (a := 0#32), hsw]
  by_cases h80 : i.address = 0x11000080#32
  -- the map has the buttons here
  · simp [h80, mmioValue, mappedRead, eq_comm (a := 0#32), hbt]
  by_cases h20 : i.address = 0x11000020#32
  -- the buttons are answered where the map has a write port only
  · simp [h20, mmioValue, mappedRead, hbt]
  by_cases h40 : i.address = 0x11000040#32
  · simp [h40, mmioValue, mappedRead, hsw]
  · simp [h00, h80, h20, h40, mmioValue, mappedRead]

/-- **The documented map holds exactly while no misplaced device has a value.** For every run of
the fabric, from any contents of its flops and under any requests, board inputs and `DMEM` data:
the writes always enable the device of the map, and every cycle follows the map exactly when, in
every cycle with a read of one of the four addresses at which map and fabric differ, the device
in question reads zero. -/
theorem Interconnect.memory_map_iff (q : Interconnect) (inp : ℕ → BusCycle) :
    (∀ n, MappedWrite (inp n).address (inp n).we
        (enables (inp n).address (inp n).we (inp n).rden)) ∧
      ((∀ n, q.MappedAt inp n) ↔ ∀ n, (inp n).rden = true → (inp n).MisplacedReadZero) := by
  have hread : ∀ n, (inp n).rden = true → (q.run inp (n + 1)).iobusIn (inp (n + 1)).dmemData
      = if 0x11000000#32 ≤ (inp n).address then
          mmioValue (inp n).address ((inp n).switches.setWidth 32) ((inp n).btns.setWidth 32)
        else if 0x00003f60#32 ≤ (inp n).address then (inp (n + 1)).dmemData else 0#32 := by
    intro n hrden
    rw [← (q.run inp n).iobusIn_read, ← hrden]
    rfl
  refine ⟨fun n => mappedWrite_enables _ _ _, ?_⟩
  constructor
  · intro h n hrden
    rw [← mappedRead_iff (inp n) (inp (n + 1)).dmemData, ← hread n hrden]
    exact (h n).read hrden
  · intro h n
    refine ⟨mappedWrite_enables _ _ _, fun hrden => ?_⟩
    rw [hread n hrden]
    exact (mappedRead_iff (inp n) _).mpr (h n hrden)

/-- A read of `0x11000000` with the switches at `0x00FF` is answered with zero, and a read of
`0x11000040` with the switches. -/
theorem Interconnect.switches_misplaced :
    let q : Interconnect := ⟨.none, 0#32⟩
    let inp : Word → ℕ → BusCycle := fun a _ => ⟨a, false, true, 0x00FF#16, 0#4, 0#32⟩
    (q.run (inp 0x11000000#32) 1).iobusIn 0#32 = 0#32 ∧
      (q.run (inp 0x11000040#32) 1).iobusIn 0#32 = 0x000000FF#32 ∧
      ¬q.MappedAt (inp 0x11000000#32) 0 ∧ ¬q.MappedAt (inp 0x11000040#32) 0 := by
  refine ⟨by decide, by decide, fun h => ?_, fun h => ?_⟩
  · exact absurd (h.read rfl) (by decide)
  · exact absurd (h.read rfl) (by decide)

/-! ### Extensions of the low bits -/

section
variable {k w : ℕ} (v : BitVec w)

/-- The sign-extension of `k` bits is a signed `k`-bit number. -/
theorem toInt_signExtend_bounds (b : BitVec k) (hk : k ≤ w) :
    -2 ^ (k - 1) ≤ (b.signExtend w).toInt ∧ (b.signExtend w).toInt < 2 ^ (k - 1) := by
  rw [BitVec.toInt_signExtend_of_le hk]
  exact ⟨b.le_toInt, b.toInt_lt⟩

/-- A signed `k`-bit number is the sign-extension of its low bits. -/
theorem signExtend_extractLsb'_eq_self (hpos : 0 < k) (hk : k ≤ w)
    (hlow : -2 ^ (k - 1) ≤ v.toInt) (hhigh : v.toInt < 2 ^ (k - 1)) :
    (v.extractLsb' 0 k).signExtend w = v := by
  apply BitVec.eq_of_toInt_eq
  rw [BitVec.toInt_signExtend_of_le hk, ← BitVec.setWidth_eq_extractLsb' hk,
    BitVec.toInt_setWidth]
  have hv : v.toInt = Int.bmod v.toNat (2 ^ w) := v.toInt_eq_toNat_bmod
  have hmod : Int.bmod v.toNat (2 ^ k) = Int.bmod v.toInt (2 ^ k) := by
    rw [hv, Int.bmod_bmod_of_dvd (Nat.pow_dvd_pow 2 hk)]
  have hdouble : (2 ^ k : ℤ) = 2 ^ (k - 1) * 2 := by
    rw [← pow_succ, Nat.sub_add_cancel hpos]
  rw [hmod]
  apply Int.bmod_eq_of_le_mul_two
  · push_cast
    omega
  · push_cast
    omega

/-- The zero-extension of `k` bits is below `2 ^ k`. -/
theorem toNat_setWidth_lt (b : BitVec k) (hk : k ≤ w) : (b.setWidth w).toNat < 2 ^ k := by
  rw [BitVec.toNat_setWidth_of_le hk]
  exact b.isLt

/-- A number below `2 ^ k` is the zero-extension of its low bits. -/
theorem setWidth_extractLsb'_eq_self (hk : k ≤ w) (h : v.toNat < 2 ^ k) :
    (v.extractLsb' 0 k).setWidth w = v := by
  apply BitVec.eq_of_toNat_eq
  rw [BitVec.toNat_setWidth_of_le hk, BitVec.extractLsb'_toNat, Nat.shiftRight_zero,
    Nat.mod_eq_of_lt h]

end

/-- The values that a sub-word load writes: the signed or unsigned numbers of its width. -/
def inSubWordRange (memSign : Bool) (memSize : BitVec 2) (v : Word) : Bool :=
  match memSign, memSize with
  | false, 0b00#2 => -128 ≤ v.toInt && v.toInt ≤ 127
  | false, 0b01#2 => -32768 ≤ v.toInt && v.toInt ≤ 32767
  | true, 0b00#2 => v.toNat < 256
  | true, 0b01#2 => v.toNat < 65536
  | _, _ => true

/-- Zero is in every range. -/
theorem inSubWordRange_zero (memSign : Bool) (memSize : BitVec 2) :
    inSubWordRange memSign memSize 0#32 = true := by
  revert memSign memSize
  decide

/-- Every access of zero formats to zero. -/
theorem formatRead_zero (memSign : Bool) (memSize byteOffset : BitVec 2) :
    formatRead 0#32 memSign memSize byteOffset = 0#32 := by
  revert memSign memSize byteOffset
  decide

/-- The sign-extension of a byte or a half word is in its signed range. -/
theorem inSubWordRange_signExtend (w : Word) (start : ℕ) :
    inSubWordRange false 0b00#2 ((w.extractLsb' start 8).signExtend 32) = true ∧
      inSubWordRange false 0b01#2 ((w.extractLsb' start 16).signExtend 32) = true := by
  obtain ⟨hb, hb'⟩ := toInt_signExtend_bounds (w := 32) (w.extractLsb' start 8) (by decide)
  obtain ⟨hh, hh'⟩ := toInt_signExtend_bounds (w := 32) (w.extractLsb' start 16) (by decide)
  simp only [inSubWordRange, Bool.and_eq_true, decide_eq_true_eq]
  exact ⟨⟨hb, Int.le_sub_one_of_lt hb'⟩, ⟨hh, Int.le_sub_one_of_lt hh'⟩⟩

/-- The zero-extension of a byte or a half word is in its unsigned range. -/
theorem inSubWordRange_setWidth (w : Word) (start : ℕ) :
    inSubWordRange true 0b00#2 ((w.extractLsb' start 8).setWidth 32) = true ∧
      inSubWordRange true 0b01#2 ((w.extractLsb' start 16).setWidth 32) = true := by
  simp only [inSubWordRange, decide_eq_true_eq]
  exact ⟨toNat_setWidth_lt (w := 32) (w.extractLsb' start 8) (by decide),
    toNat_setWidth_lt (w := 32) (w.extractLsb' start 16) (by decide)⟩

/-- What the formatter makes of a byte or a half word is in the range of the load. -/
theorem formatRead_range (w : Word) (memSign : Bool) {memSize : BitVec 2}
    (hsub : memSize = 0b00#2 ∨ memSize = 0b01#2) (byteOffset : BitVec 2) :
    inSubWordRange memSign memSize (formatRead w memSign memSize byteOffset) = true := by
  cases hsup : supportedLoad memSign memSize byteOffset with
  | false =>
      -- no half word at offset 3
      rw [formatRead_unsupported w hsup]
      exact inSubWordRange_zero ..
  | true =>
      rw [formatRead_slice w hsup]
      rcases hsub with rfl | rfl <;> cases memSign
      · exact (inSubWordRange_signExtend w _).1
      · exact (inSubWordRange_setWidth w _).1
      · exact (inSubWordRange_signExtend w _).2
      · exact (inSubWordRange_setWidth w _).2

/-- At byte offset 0 the formatter keeps exactly the words in the range of the load. -/
theorem formatRead_eq_self_iff (v : Word) (memSign : Bool) {memSize : BitVec 2}
    (hsub : memSize = 0b00#2 ∨ memSize = 0b01#2) :
    formatRead v memSign memSize 0b00#2 = v ↔ inSubWordRange memSign memSize v = true := by
  constructor
  · intro h
    rw [← h]
    exact formatRead_range v memSign hsub _
  · intro h
    rcases hsub with rfl | rfl <;> cases memSign <;>
      simp only [inSubWordRange, Bool.and_eq_true, decide_eq_true_eq] at h
    · exact signExtend_extractLsb'_eq_self v (k := 8) (by decide) (by decide) h.1
        (Int.lt_of_le_of_lt h.2 (by decide))
    · exact setWidth_extractLsb'_eq_self v (k := 8) (by decide) h
    · exact signExtend_extractLsb'_eq_self v (k := 16) (by decide) (by decide) h.1
        (Int.lt_of_le_of_lt h.2 (by decide))
    · exact setWidth_extractLsb'_eq_self v (k := 16) (by decide) h

/-! ### Loads of an MMIO address -/

/-- A device that answers a read has a word-aligned address. -/
theorem byteOffsetOf_mmio (address switches buttons : Word) :
    byteOffsetOf address = 0b00#2 ∨ mmioValue address switches buttons = 0#32 := by
  unfold mmioValue
  by_cases h20 : address = 0x11000020#32
  · exact .inl (h20 ▸ rfl)
  by_cases h40 : address = 0x11000040#32
  · exact .inl (h40 ▸ rfl)
  · rw [if_neg h20, if_neg h40]
    exact .inr rfl

/-- The formatter keeps exactly the register values in the range of the load, at every MMIO
address. -/
theorem formatRead_mmio_iff (address switches buttons : Word) (memSign : Bool)
    {memSize : BitVec 2} (hsub : memSize = 0b00#2 ∨ memSize = 0b01#2) :
    formatRead (mmioValue address switches buttons) memSign memSize (byteOffsetOf address)
        = mmioValue address switches buttons
      ↔ inSubWordRange memSign memSize (mmioValue address switches buttons) = true := by
  rcases byteOffsetOf_mmio address switches buttons with hoff | hzero
  · rw [hoff]
    exact formatRead_eq_self_iff _ memSign hsub
  · rw [hzero]
    exact iff_of_true (formatRead_zero ..) (inSubWordRange_zero ..)

namespace System

variable {imem : InstructionMemory} {s : System} {inp : ℕ → SystemInput}

/-- The device register at the address of load `n`, in the cycle of its request. -/
def registerValue (imem : InstructionMemory) (s : System) (inp : ℕ → SystemInput) (n : ℕ) : Word :=
  mmioValue (s.loadAddress imem inp n) (inp (s.path imem inp n).due).switches
    (inp (s.path imem inp n).due).buttons

section
variable (hstart : s.cpu = outOfReset imem s.cpu.registers) (hrst : ∀ c, (inp c).rst = false)
  {n : ℕ} (hpath : ∀ m < n, isTrap (imem.at (s.path imem inp m).state.pc) = false)
  (hload : s.isLoad imem inp n = true) (hregion : 0x11000000#32 ≤ s.loadAddress imem inp n)
include hstart hrst hpath hload hregion

/-- The register joins the data path behind `DMEM`: it is on `DATA_IN` in the next cycle. -/
theorem dataIn_mmio : (s.run imem inp ((s.path imem inp n).due + 1)).dataIn
    = s.registerValue imem inp n := by
  obtain ⟨-, hrden, -, haddr, -⟩ := (due_path hstart hrst hpath).bus_commit
  have haddr' := haddr (Or.inr hload)
  show ((s.run imem inp _).nextInterconnect _ _).iobusIn _ = _
  rw [nextInterconnect, hrden.trans hload, haddr', Interconnect.iobusIn_read]
  exact if_pos hregion

/-- A load of an MMIO address writes the whole register, whatever its size and sign are. -/
theorem load_delivers_register : s.Delivers imem inp n (s.registerValue imem inp n) := by
  rw [← dataIn_mmio hstart hrst hpath hload hregion]
  exact delivers_dataIn hstart hrst hpath hload

end

end System

/-- **When a sub-word load of a device is extended.** The system is out of reset, no instruction
before `n` is a trap, and instruction `n` loads a byte or a half word from an MMIO address. It
writes the device register as it is. The write is the extension of the addressed lane, in the range
of the load, exactly when `rd` is `x0` or the register itself is in that range. A register is found
by its whole byte address, so one that is not zero is only ever read at lane 0. -/
theorem mmio_load_extended_iff (imem : InstructionMemory) {s : System}
    (hstart : s.cpu = outOfReset imem s.cpu.registers) {inp : ℕ → SystemInput}
    (hrst : ∀ c, (inp c).rst = false) {n : ℕ}
    (hpath : ∀ m < n, isTrap (imem.at (s.path imem inp m).state.pc) = false)
    (hload : s.isLoad imem inp n = true)
    (hsub : memSizeOf (s.loadMemData imem inp n) = 0b00#2 ∨
      memSizeOf (s.loadMemData imem inp n) = 0b01#2)
    (hregion : 0x11000000#32 ≤ s.loadAddress imem inp n) :
    let register := s.registerValue imem inp n
    let extension := s.formatOwn imem inp n register
    let inRange := inSubWordRange (memSignOf (s.loadMemData imem inp n))
      (memSizeOf (s.loadMemData imem inp n))
    s.Delivers imem inp n register ∧
      ((s.Delivers imem inp n extension ∧ inRange extension = true) ↔
        ((s.path imem inp n).state.decoded imem).regWriteAddr = 0#5 ∨ inRange register = true) := by
  intro register extension inRange
  have hdelivers := System.load_delivers_register hstart hrst hpath hload hregion
  have hrange : inRange extension = true := formatRead_range _ _ hsub _
  have hself : extension = register ↔ inRange register = true := formatRead_mmio_iff _ _ _ _ hsub
  refine ⟨hdelivers, ?_⟩
  rw [and_iff_left hrange, System.delivers_iff hdelivers, ← hself]
  exact or_congr_right eq_comm

/-- `lbu x1, 0(x2)` with `x2 = 0x11000040` and the switches at `0x7F`. -/
theorem mmio_load_extended_iff_lbu :
    let imem : InstructionMemory := fun _ => 0x00014083#32
    let s : System := ⟨outOfReset imem fun _ => 0x11000040#32, ⟨.none, 0#32⟩,
      ⟨fun _ => 0#32, 0#32⟩⟩
    let inp : ℕ → SystemInput := fun _ => ⟨false, 0x0000007F#32, 0#32⟩
    s.Delivers imem inp 0 (s.formatOwn imem inp 0 (s.registerValue imem inp 0)) := by
  intro imem s inp
  exact ((mmio_load_extended_iff imem rfl (fun _ => rfl) (fun m hm => absurd hm (Nat.not_lt_zero m))
    (by decide +kernel) (by decide +kernel) (by decide +kernel)).2.mpr (.inr (by decide +kernel))).1

/-- `lb x1, 0(x2)` with `x2 = 0x11000040` and the switches at `0xFF`: `x1` becomes 255. -/
theorem mmio_load_not_extended :
    ¬∀ (imem : InstructionMemory) (s : System) (inp : ℕ → SystemInput),
      s.cpu = outOfReset imem s.cpu.registers → (∀ c, (inp c).rst = false) →
      (∀ m, isImplemented (imem.at (s.path imem inp m).state.pc) = true) →
      ∀ n, s.isLoad imem inp n = true →
      (memSizeOf (s.loadMemData imem inp n) = 0b00#2 ∨
        memSizeOf (s.loadMemData imem inp n) = 0b01#2) →
      0x11000000#32 ≤ s.loadAddress imem inp n →
      s.Delivers imem inp n (s.formatOwn imem inp n (s.registerValue imem inp n)) := by
  intro hall
  let imem : InstructionMemory := fun _ => 0x00010083#32
  let s : System := ⟨outOfReset imem fun _ => 0x11000040#32, ⟨.none, 0#32⟩,
    ⟨fun _ => 0#32, 0#32⟩⟩
  let inp : ℕ → SystemInput := fun _ => ⟨false, 0x000000FF#32, 0#32⟩
  have hprog : isImplemented 0x00010083#32 = true := by decide
  have hdelivers := hall imem s inp rfl (fun _ => rfl) (fun m => hprog) 0 (by decide +kernel)
    (by decide +kernel) (by decide +kernel)
  have hwrite : (s.run imem inp 3).regWrite = [(1#5, 0x000000FF#32)] := by decide +kernel
  have hbyte : (s.run imem inp 3).regWrite = [(1#5, 0xFFFFFFFF#32)] :=
    hdelivers.trans (by decide +kernel)
  rw [hwrite] at hbyte
  exact absurd hbyte (by decide)

end Rv32iPipeline
