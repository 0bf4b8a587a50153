import Rv32iPipeline.Clocked.Run
import Rv32iPipeline.Spec.Rv32i

/-!
# `Rv32iPipeline.Spec.Machine`: the RV32I machine

`Instr.decode` reads an instruction word. It inverts `Instr.encode`, and it knows nothing of the
fields and blocks of a particular core.

A `Hart` is a program counter and a register file whose `x0` is zero. A `Memory` says how a load
and a store act on whatever stands on the bus, so the same machine runs on a plain byte memory and
on a map of devices. A `Machine` is a hart with the state of that memory. One step decodes the word
at the program counter and applies its `Effect`. A word that is no operation ends the run.

The memory that instruction `n` sees is an argument `M n` of the run: the devices on a bus may
answer differently from one instruction to the next.
-/

set_option autoImplicit false

namespace Rv32i

/-! ### Decoding -/

/-- The branch with this `funct3`. -/
def BranchOp.ofFunct3 (funct3 : BitVec 3) : Option BranchOp :=
  [.beq, .bne, .blt, .bge, .bltu, .bgeu].find? fun op => op.funct3 == funct3

/-- The load with this `funct3`. -/
def LoadOp.ofFunct3 (funct3 : BitVec 3) : Option LoadOp :=
  [.lb, .lh, .lw, .lbu, .lhu].find? fun op => op.funct3 == funct3

/-- The store with this `funct3`. -/
def StoreOp.ofFunct3 (funct3 : BitVec 3) : Option StoreOp :=
  [.sb, .sh, .sw].find? fun op => op.funct3 == funct3

/-- The operation with an immediate with this `funct3`. The two codes of the shifts are none. -/
def ImmOp.ofFunct3 (funct3 : BitVec 3) : Option ImmOp :=
  [.addi, .slti, .sltiu, .xori, .ori, .andi].find? fun op => op.op.funct3 == funct3

/-- The shift by a constant with this `funct3` and `funct7`. -/
def ShiftOp.ofFunct (funct3 : BitVec 3) (funct7 : BitVec 7) : Option ShiftOp :=
  [.slli, .srli, .srai].find? fun op => op.op.funct3 == funct3 && op.op.funct7 == funct7

/-- The operation on two registers with this `funct3` and `funct7`. -/
def AluOp.ofFunct (funct3 : BitVec 3) (funct7 : BitVec 7) : Option AluOp :=
  [.add, .sub, .sll, .slt, .sltu, .xor, .srl, .sra, .or, .and].find? fun op =>
    op.funct3 == funct3 && op.funct7 == funct7

/-- The instruction that a word encodes, if any. -/
def Instr.decode (w : Word) : Option Instr :=
  let rd := w.extractLsb' 7 5
  let funct3 := w.extractLsb' 12 3
  let rs1 := w.extractLsb' 15 5
  let rs2 := w.extractLsb' 20 5
  let funct7 := w.extractLsb' 25 7
  match w.extractLsb' 0 7 with
  | 0b0110111#7 => some (.lui rd (w.extractLsb' 12 20))
  | 0b0010111#7 => some (.auipc rd (w.extractLsb' 12 20))
  | 0b1101111#7 => some (.jal rd (w.extractLsb' 31 1 ++ w.extractLsb' 12 8 ++ w.extractLsb' 20 1
      ++ w.extractLsb' 21 10))
  | 0b1100111#7 => if funct3 = 0b000#3 then some (.jalr rd rs1 (w.extractLsb' 20 12)) else none
  | 0b1100011#7 => (BranchOp.ofFunct3 funct3).map fun op =>
      .branch op rs1 rs2 (w.extractLsb' 31 1 ++ w.extractLsb' 7 1 ++ w.extractLsb' 25 6
        ++ w.extractLsb' 8 4)
  | 0b0000011#7 => (LoadOp.ofFunct3 funct3).map fun op => .load op rd rs1 (w.extractLsb' 20 12)
  | 0b0100011#7 => (StoreOp.ofFunct3 funct3).map fun op =>
      .store op rs1 rs2 (w.extractLsb' 25 7 ++ w.extractLsb' 7 5)
  | 0b0010011#7 =>
    match ImmOp.ofFunct3 funct3 with
    | some op => some (.opImm op rd rs1 (w.extractLsb' 20 12))
    -- the immediate of a shift is its amount and `funct7`
    | none => (ShiftOp.ofFunct funct3 funct7).map fun op => .shiftImm op rd rs1 rs2
  | 0b0110011#7 => (AluOp.ofFunct funct3 funct7).map fun op => .opReg op rd rs1 rs2
  | _ => none

/-- What the machine executes: an instruction, or a `FENCE`. On a single hart whose accesses are
in order a `FENCE` does nothing. -/
inductive Op where
  | instr (i : Instr)
  | fence
  deriving DecidableEq, Repr

/-- The operation of a word, if any. -/
def Op.decode (w : Word) : Option Op :=
  if w.extractLsb' 0 7 = 0b0001111#7 then some .fence else (Instr.decode w).map .instr

/-- The first source register. -/
def Op.rs1 : Op → Option Reg
  | .instr i => i.rs1
  | .fence => none

/-- The second source register. -/
def Op.rs2 : Op → Option Reg
  | .instr i => i.rs2
  | .fence => none

/-- The effect at address `pc`, with the values `a` of `rs1` and `b` of `rs2`. -/
def Op.effect (pc a b : Word) : Op → Effect
  | .instr i => i.effect pc a b
  | .fence => ⟨none, none, pc + 4#32, none⟩

/-! ### The hart -/

/-- The integer registers. -/
@[ext] structure RegFile where
  read : Reg → Word
  /-- `x0` is zero. -/
  read_zero : read 0#5 = 0#32

/-- A write. A write to `x0` is dropped. -/
def RegFile.write (x : RegFile) (rd : Reg) (v : Word) : RegFile where
  read r := if r = rd ∧ r ≠ 0#5 then v else x.read r
  read_zero := by simp [x.read_zero]

@[simp] theorem RegFile.write_x0 (x : RegFile) (v : Word) : x.write 0#5 v = x := by
  apply RegFile.ext
  funext r
  simp only [write]
  exact if_neg fun h => h.2 h.1

/-- The program counter and the registers. -/
@[ext] structure Hart where
  pc : Word
  regs : RegFile

namespace Hart

/-- The value of a source register. An operation does not depend on a source it does not have. -/
def operand (h : Hart) : Option Reg → Word
  | some r => h.regs.read r
  | none => 0#32

/-- The effect of an operation on the registers as they are. -/
def effect (h : Hart) (o : Op) : Effect := o.effect h.pc (h.operand o.rs1) (h.operand o.rs2)

/-- The hart after an effect. A value that the effect leaves to memory is `answer`. -/
def apply (h : Hart) (e : Effect) (answer : Word) : Hart where
  pc := e.nextPc
  regs :=
    match e.rd with
    | some rd => h.regs.write rd (e.value.getD answer)
    | none => h.regs

end Hart

/-- The register write of an effect, if any. A write to `x0` is none. -/
def Effect.regWrite (e : Effect) (answer : Word) : List (Reg × Word) :=
  match e.rd with
  | some rd => if rd = 0#5 then [] else [(rd, e.value.getD answer)]
  | none => []

/-- A store as the bus sees it: address, number of bytes and data. -/
abbrev Store := Word × ℕ × Word

/-- The store of an effect, if any. -/
def Effect.stores (e : Effect) : List Store :=
  match e.access with
  | some (.store address bytes data) => [(address, bytes, data)]
  | _ => []

/-! ### The machine -/

/-- How loads and stores act on a memory with states `μ`. A load gives the extended value. -/
structure Memory (μ : Type*) where
  load : μ → Word → ℕ → Bool → Word
  store : μ → Word → ℕ → Word → μ

namespace Memory

variable {μ : Type*} (M : Memory μ)

/-- What the memory answers to an access. Only a load has an answer. -/
def answer (m : μ) : Option Access → Word
  | some (.load address bytes unsigned) => M.load m address bytes unsigned
  | _ => 0#32

/-- The memory after an access. -/
def perform (m : μ) : Option Access → μ
  | some (.store address bytes data) => M.store m address bytes data
  | _ => m

end Memory

/-- A hart and the state of its memory. -/
@[ext] structure Machine (μ : Type*) where
  hart : Hart
  mem : μ

namespace Machine

variable {μ : Type*} (prog : Word → Word)

/-- The effect of the next instruction, if the word at the program counter is an operation. -/
def effect (s : Machine μ) : Option Effect := (Op.decode (prog s.hart.pc)).map s.hart.effect

/-- The machine after an effect. -/
def apply (M : Memory μ) (s : Machine μ) (e : Effect) : Machine μ where
  hart := s.hart.apply e (M.answer s.mem e.access)
  mem := M.perform s.mem e.access

/-- One instruction. -/
def step (M : Memory μ) (s : Machine μ) : Option (Machine μ) := (s.effect prog).map (s.apply M)

/-- The state before instruction `n`, if the run gets there. -/
def run (M : ℕ → Memory μ) (s : Machine μ) : ℕ → Option (Machine μ)
  | 0 => some s
  | n + 1 => (run M s n).bind (step prog (M n))

/-- The register write of instruction `n`. -/
def regWrite (M : ℕ → Memory μ) (s : Machine μ) (n : ℕ) : List (Reg × Word) :=
  match s.run prog M n with
  | some h => (h.effect prog).elim [] fun e => e.regWrite ((M n).answer h.mem e.access)
  | none => []

/-- The store of instruction `n`. -/
def storeAt (M : ℕ → Memory μ) (s : Machine μ) (n : ℕ) : List Store :=
  match s.run prog M n with
  | some h => (h.effect prog).elim [] Effect.stores
  | none => []

/-- The register writes of the first `n` instructions. -/
def regWrites (M : ℕ → Memory μ) (s : Machine μ) (n : ℕ) : List (Reg × Word) :=
  Clocked.trace (s.regWrite prog M) n

/-- The stores of the first `n` instructions. -/
def stores (M : ℕ → Memory μ) (s : Machine μ) (n : ℕ) : List Store :=
  Clocked.trace (s.storeAt prog M) n

/-! ### Runs -/

variable {prog} {M : ℕ → Memory μ} {s : Machine μ} {n : ℕ}

/-- The run goes on exactly when the next word is an operation. -/
theorem run_succ_eq_some {h' : Machine μ} : s.run prog M (n + 1) = some h' ↔
    ∃ h e, s.run prog M n = some h ∧ h.effect prog = some e ∧ h.apply (M n) e = h' := by
  simp only [run, step, Option.bind_eq_some_iff, Option.map_eq_some_iff]
  constructor
  · rintro ⟨h, hrun, e, he, hap⟩
    exact ⟨h, e, hrun, he, hap⟩
  · rintro ⟨h, e, hrun, he, hap⟩
    exact ⟨h, hrun, e, he, hap⟩

/-- A run that gets to instruction `n` has executed every earlier one. -/
theorem exists_effect_of_lt {hn : Machine μ} (hrun : s.run prog M n = some hn) {k : ℕ}
    (hk : k < n) : ∃ h e, s.run prog M k = some h ∧ h.effect prog = some e := by
  induction n generalizing hn with
  | zero => exact absurd hk (Nat.not_lt_zero k)
  | succ n ih =>
      obtain ⟨h, e, hprev, he, -⟩ := run_succ_eq_some.mp hrun
      rcases Nat.lt_succ_iff_lt_or_eq.mp hk with hlt | rfl
      · exact ih hprev hlt
      · exact ⟨h, e, hprev, he⟩

/-- A property of the states before each instruction, which every executed instruction hands on,
holds at every state that a run gets to. -/
theorem run_invariant {I : ℕ → Machine μ → Prop} (h0 : I 0 s)
    (hstep : ∀ k h e, s.run prog M k = some h → h.effect prog = some e → I k h →
      I (k + 1) (h.apply (M k) e)) {hn : Machine μ} (hrun : s.run prog M n = some hn) : I n hn := by
  induction n generalizing hn with
  | zero => exact Option.some.inj hrun ▸ h0
  | succ n ih =>
      obtain ⟨h, e, hprev, he, rfl⟩ := run_succ_eq_some.mp hrun
      exact hstep n h e hprev he (ih hprev)

/-- The register write of an executed instruction. -/
theorem regWrite_eq {h : Machine μ} {e : Effect} (hrun : s.run prog M n = some h)
    (he : h.effect prog = some e) :
    s.regWrite prog M n = e.regWrite ((M n).answer h.mem e.access) := by
  simp only [regWrite, hrun, he, Option.elim]

/-- The store of an executed instruction. -/
theorem storeAt_eq {h : Machine μ} {e : Effect} (hrun : s.run prog M n = some h)
    (he : h.effect prog = some e) : s.storeAt prog M n = e.stores := by
  simp only [storeAt, hrun, he, Option.elim]

end Machine

end Rv32i
