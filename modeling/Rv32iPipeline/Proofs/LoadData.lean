import Rv32iPipeline.Proofs.SystemRun

/-!
# `Rv32iPipeline.Proofs.LoadData`: what a load from `DMEM` delivers

`DMEM` registers the word of a load in the cycle the load is in EX. One cycle later the
formatter sizes, extends and lane-selects it with the `mem_data` and `address` pins of that
cycle. They belong to the instruction that is in EX by then.

`load_delivers_iff`: the value written to `rd` is the little-endian value of the bytes that
the earlier stores left at the address, when the pins of that cycle carry the load's own
size, sign and byte offset. They are the only pins that format every word so. The value is
otherwise that of the wrong formatter (`load_delivers_format`).
-/

set_option autoImplicit false

namespace Rv32iPipeline

open CpuTop Clocked LittleEndian

namespace System

variable (imem : InstructionMemory) (s : System) (inp : ℕ → SystemInput)

/-- The executed path of the system from address 0, with the cycles of its completions. -/
def path (n : ℕ) : Timed Arch :=
  execution imem s.cpu.registers (fun c => (s.run imem inp c).dataIn) n

/-- The reference memory before instruction `n`: the earlier stores of the path, in order. -/
def storedBytes (n : ℕ) : Bytes 13 :=
  (trace (fun k => (s.path imem inp k).state.busWrite imem) n).foldl storeWrite
    (wordBytes s.dmem.memory)

/-- Instruction `n` is a load. -/
def isLoad (n : ℕ) : Bool := ((s.path imem inp n).state.decoded imem).memRden

/-- Its address and `mem_data`. -/
def loadAddress (n : ℕ) : Word := (s.path imem inp n).state.aluResult imem
def loadMemData (n : ℕ) : BitVec 3 := ((s.path imem inp n).state.decoded imem).memData

/-- The bus pins of the cycle after the load is in EX. -/
def nextPins (n : ℕ) : Bus := (s.run imem inp ((s.path imem inp n).due + 1)).cpu.bus

/-- The register write of instruction `n`, performed in that cycle, is `v` to `rd`. A write to
`x0` is none. -/
def Delivers (n : ℕ) (v : Word) : Prop :=
  (s.run imem inp ((s.path imem inp n).due + 1)).regWrite
    = if ((s.path imem inp n).state.decoded imem).regWriteAddr = 0#5 then []
      else [(((s.path imem inp n).state.decoded imem).regWriteAddr, v)]

/-- The pins of that cycle carry the size, the sign and the byte offset of the load. -/
def PinsMatch (n : ℕ) : Prop :=
  memSignOf (s.nextPins imem inp n).memData = memSignOf (s.loadMemData imem inp n) ∧
    memSizeOf (s.nextPins imem inp n).memData = memSizeOf (s.loadMemData imem inp n) ∧
    byteOffsetOf (s.nextPins imem inp n).dataAddress
      = byteOffsetOf (s.loadAddress imem inp n)

/-- The formatter with the pins of that cycle. -/
def formatNext (n : ℕ) (w : Word) : Word :=
  formatRead w (memSignOf (s.nextPins imem inp n).memData)
    (memSizeOf (s.nextPins imem inp n).memData) (byteOffsetOf (s.nextPins imem inp n).dataAddress)

/-- The formatter with the load's own selectors. -/
def formatOwn (n : ℕ) (w : Word) : Word :=
  formatRead w (memSignOf (s.loadMemData imem inp n)) (memSizeOf (s.loadMemData imem inp n))
    (byteOffsetOf (s.loadAddress imem inp n))

/-- The word that `DMEM` reads for the load. -/
def readWord (n : ℕ) : Word :=
  (s.run imem inp (s.path imem inp n).due).dmem.memory (wordAddress (s.loadAddress imem inp n))

variable {imem s inp}

section
variable (hstart : s.cpu = outOfReset imem s.cpu.registers) (hrst : ∀ c, (inp c).rst = false)
  {n : ℕ} (hpath : ∀ m < n, isTrap (imem.at (s.path imem inp m).state.pc) = false)
include hstart hrst hpath

/-- In cycle `due n` the core of the system completes instruction `n`. -/
theorem due_path : Due imem (s.run imem inp (s.path imem inp n).due).cpu
    (s.run imem inp (s.path imem inp n).due).dataIn (s.path imem inp n).state 0 := by
  have hdue := due_execution imem s.cpu.registers (fun c => (s.run imem inp c).dataIn)
    fun m hm => (Arch.decoded_trap imem _).trans (hpath m hm)
  rw [← hstart, ← System.run_cpu imem s hrst] at hdue
  exact hdue

/-- In that cycle `DMEM` holds what the earlier instructions have stored. -/
theorem bytes_path : wordBytes (s.run imem inp (s.path imem inp n).due).dmem.memory
    = s.storedBytes imem inp n := by
  have hbus := busWrites_execution imem s.cpu.registers (fun c => (s.run imem inp c).dataIn)
    fun m hm => (Arch.decoded_trap imem _).trans (hpath m hm)
  rw [← hstart] at hbus
  -- both sides apply a list of stores to the same bytes, and the lists agree
  rw [System.bytes_run, storedBytes]
  refine congrArg (List.foldl storeWrite _) (Eq.trans ?_ hbus)
  exact trace_congr fun k _ => by rw [System.run_cpu imem s hrst k]

/-- The reference value is that word through the load's own selectors. -/
theorem loadBytes_path
    (hsup : supportedLoad (memSignOf (s.loadMemData imem inp n))
      (memSizeOf (s.loadMemData imem inp n)) (byteOffsetOf (s.loadAddress imem inp n)) = true) :
    loadBytes (s.storedBytes imem inp n) (s.loadAddress imem inp n) (s.loadMemData imem inp n)
      = s.formatOwn imem inp n (s.readWord imem inp n) := by
  rw [← bytes_path hstart hrst hpath]
  exact (formatRead_load _ _ hsup).symm

variable (hload : s.isLoad imem inp n = true)
include hload

/-- One cycle after the load is in EX, whatever is on `DATA_IN` goes to its destination. -/
theorem delivers_dataIn : s.Delivers imem inp n
    (s.run imem inp ((s.path imem inp n).due + 1)).dataIn := by
  have hcommit := (due_path hstart hrst hpath).regWrite_commit
    (s.run imem inp ((s.path imem inp n).due + 1)).dataIn
  have hcpu : (s.run imem inp ((s.path imem inp n).due + 1)).cpu
      = (s.run imem inp (s.path imem inp n).due).cpu.step imem
          (CpuInput.run (s.run imem inp (s.path imem inp n).due).dataIn) := by
    show (s.run imem inp _).cpu.step imem ⟨(inp _).rst, _, _⟩ = _
    rw [hrst]
    rfl
  rw [Delivers, System.regWrite, hcpu, hcommit, Arch.regWrite_of_load hload]

variable (hregion : isDmem (s.loadAddress imem inp n) = true)
include hregion

/-- The request of the load: its word is registered, and the region of the read is `DMEM`. -/
theorem read_registered :
    (s.run imem inp ((s.path imem inp n).due + 1)).dmem.memReadWord = s.readWord imem inp n ∧
      (s.run imem inp ((s.path imem inp n).due + 1)).interconnect.regionQ = .dmem := by
  obtain ⟨-, hrden, -, haddr, -⟩ := (due_path hstart hrst hpath).bus_commit
  have hrden' := hrden.trans hload
  have haddr' := haddr (Or.inr hload)
  have hregion' := hregion
  rw [loadAddress, ← haddr'] at hregion'
  constructor
  · show (s.run imem inp _).nextDmem.memReadWord = _
    simp only [nextDmem, Dmem.step, enables, (enables_dmem _ _ _).2, hrden', hregion',
      Bool.and_true, if_true]
    rw [haddr']
    rfl
  · show ((s.run imem inp _).nextInterconnect _ _).regionQ = _
    simp only [isDmem, Bool.and_eq_true, decide_eq_true_eq, Bool.not_eq_true',
      decide_eq_false_iff_not] at hregion'
    simp [nextInterconnect, Interconnect.step, hrden', hregion'.1, hregion'.2]

/-- One cycle later the load delivers that word through the pins of that cycle. -/
theorem load_delivers_format :
    s.Delivers imem inp n (s.formatNext imem inp n (s.readWord imem inp n)) := by
  obtain ⟨hword, hreg⟩ := read_registered hstart hrst hpath hload hregion
  have hdata : (s.run imem inp ((s.path imem inp n).due + 1)).dataIn
      = s.formatNext imem inp n (s.readWord imem inp n) := by
    simp only [dataIn, Interconnect.iobusIn, hreg, Dmem.dataOut, hword]
    rfl
  rw [← hdata]
  exact delivers_dataIn hstart hrst hpath hload

end

/-- Two values to `rd` are the same write exactly when they are equal or `rd` is `x0`. -/
theorem delivers_iff {n : ℕ} {v v' : Word} (h : s.Delivers imem inp n v) :
    s.Delivers imem inp n v'
      ↔ ((s.path imem inp n).state.decoded imem).regWriteAddr = 0#5 ∨ v = v' := by
  rw [Delivers] at h
  rw [Delivers, h]
  by_cases hrd : ((s.path imem inp n).state.decoded imem).regWriteAddr = 0#5
  · simp [hrd]
  · simp [hrd]

/-- The pins match exactly when they format every word as the load's own selectors do. -/
theorem pinsMatch_iff {n : ℕ}
    (hsup : supportedLoad (memSignOf (s.loadMemData imem inp n))
      (memSizeOf (s.loadMemData imem inp n)) (byteOffsetOf (s.loadAddress imem inp n)) = true) :
    s.PinsMatch imem inp n ↔ ∀ w, s.formatNext imem inp n w = s.formatOwn imem inp n w :=
  (formatRead_congr_iff hsup).symm

end System

/-- **When a load delivers its own data.** The system is out of reset, no instruction before `n`
is a trap, and instruction `n` is a supported load from `DMEM`. It writes the little-endian
value of the bytes that the earlier stores left at its address when the bus pins of the next
cycle carry its own size, sign and byte offset. These are the only pins that would do so for
every word read. For a given word, the write is right exactly when the pins format that
word as the load would, or `rd` is `x0`. -/
theorem load_delivers_iff (imem : InstructionMemory) {s : System}
    (hstart : s.cpu = outOfReset imem s.cpu.registers) {inp : ℕ → SystemInput}
    (hrst : ∀ c, (inp c).rst = false) {n : ℕ}
    (hpath : ∀ m < n, isTrap (imem.at (s.path imem inp m).state.pc) = false)
    (hload : s.isLoad imem inp n = true) (hregion : isDmem (s.loadAddress imem inp n) = true)
    (hsup : supportedLoad (memSignOf (s.loadMemData imem inp n))
      (memSizeOf (s.loadMemData imem inp n)) (byteOffsetOf (s.loadAddress imem inp n)) = true) :
    let value := loadBytes (s.storedBytes imem inp n) (s.loadAddress imem inp n)
      (s.loadMemData imem inp n)
    (s.PinsMatch imem inp n → s.Delivers imem inp n value) ∧
      (s.PinsMatch imem inp n ↔ ∀ w, s.formatNext imem inp n w = s.formatOwn imem inp n w) ∧
      (s.Delivers imem inp n value ↔
        ((s.path imem inp n).state.decoded imem).regWriteAddr = 0#5 ∨
          s.formatNext imem inp n (s.readWord imem inp n)
            = s.formatOwn imem inp n (s.readWord imem inp n)) := by
  -- the write is that of the word through the pins of the moment
  have hformat := System.load_delivers_format hstart hrst hpath hload hregion
  have hvalue := System.loadBytes_path hstart hrst hpath hsup
  intro value
  have hiff : s.Delivers imem inp n value ↔ _ := System.delivers_iff hformat
  rw [show value = _ from hvalue] at hiff ⊢
  have hpins := System.pinsMatch_iff hsup
  exact ⟨fun hmatch => hiff.mpr (.inr (hpins.mp hmatch _)), hpins, hiff⟩

/-- `lw x1, 0(x2)` twice, with `x2 = 0x3F60`. -/
theorem load_delivers_iff_pair :
    let imem : InstructionMemory := fun _ => 0x00012083#32
    let s : System := ⟨outOfReset imem fun _ => 0x00003F60#32, ⟨.none, 0#32⟩,
      ⟨fun _ => 0x12345678#32, 0#32⟩⟩
    let inp : ℕ → SystemInput := fun _ => ⟨false, 0#32, 0#32⟩
    s.Delivers imem inp 0 (loadBytes (s.storedBytes imem inp 0) (s.loadAddress imem inp 0)
      (s.loadMemData imem inp 0)) := by
  intro imem s inp
  exact (load_delivers_iff imem rfl (fun _ => rfl) (fun m hm => absurd hm (Nat.not_lt_zero m))
    (by decide +kernel) (by decide +kernel) (by decide +kernel)).1
    ⟨by decide +kernel, by decide +kernel, by decide +kernel⟩

/-- `lw x1, 0(x2)` and then `addi x0, x0, 0`: the word `0x12345678` arrives as its low byte. -/
theorem load_not_delivered :
    ¬ ∀ (imem : InstructionMemory) (s : System) (inp : ℕ → SystemInput),
      s.cpu = outOfReset imem s.cpu.registers → (∀ c, (inp c).rst = false) →
      (∀ m, isImplemented (imem.at (s.path imem inp m).state.pc) = true) →
      ∀ n, s.isLoad imem inp n = true → 0x00003F60#32 ≤ s.loadAddress imem inp n →
      s.loadAddress imem inp n ≤ 0x00005F5F#32 →
      supportedLoad (memSignOf (s.loadMemData imem inp n)) (memSizeOf (s.loadMemData imem inp n))
        (byteOffsetOf (s.loadAddress imem inp n)) = true →
      s.Delivers imem inp n (loadBytes (s.storedBytes imem inp n) (s.loadAddress imem inp n)
        (s.loadMemData imem inp n)) := by
  intro hall
  let imem : InstructionMemory := fun a => if a = 0#13 then 0x00012083#32 else 0x00000013#32
  let s : System := ⟨outOfReset imem fun _ => 0x00003F60#32, ⟨.none, 0#32⟩,
    ⟨fun _ => 0x12345678#32, 0#32⟩⟩
  let inp : ℕ → SystemInput := fun _ => ⟨false, 0#32, 0#32⟩
  have hprog : ∀ pc, isImplemented (imem.at pc) = true := fun pc => by
    show isImplemented (if pc.extractLsb' 2 13 = 0#13 then _ else _) = true
    split <;> decide
  have hdelivers := hall imem s inp rfl (fun _ => rfl) (fun m => hprog _) 0 (by decide +kernel)
    (by decide +kernel) (by decide +kernel) (by decide +kernel)
  have hbyte : (s.run imem inp 3).regWrite = [(1#5, 0x00000078#32)] := by decide +kernel
  have hword : (s.run imem inp 3).regWrite = [(1#5, 0x12345678#32)] :=
    hdelivers.trans (by decide +kernel)
  rw [hbyte] at hword
  exact absurd hword (by decide)

end Rv32iPipeline
