import Rv32iPipeline.Clocked.Run
import Rv32iPipeline.Rtl.CpuTop

/-!
# `Rv32iPipeline.Spec.Sequential`: the one-instruction-at-a-time machine

`Arch` is a program counter and a register file. One step fetches the word at the
program counter, decodes it, reads its operands, runs the EX-stage blocks on them and
writes back, all before the next instruction starts. The blocks are those of the core
(`idExD`, `IdEx.aluResult`, `IdEx.pcSel`, `IdEx.targets`, the write-back mux), with every
`'X` read as 0. A load takes its value from the argument `load`.

`Responder` is a memory on the bus, given by two functions. `SeqSystem` is the
sequential machine with a responder attached, and `Attached` is the core with one.

`loadUse` and `taken` are the two events that cost the pipeline cycles, and
`Arch.delay` counts them.
-/

set_option autoImplicit false

namespace Rv32iPipeline

/-- The architectural state. -/
structure Arch where
  pc : Word
  registers : Registers

/-- Instruction `d` takes the fetch away from `PC + 4` with these operands: a `jal`, a
`jalr` or a taken branch. -/
def IdEx.taken (d : IdEx) (rs1 rs2 : Word) : Bool :=
  d.jalI || d.jalrI || (d.branchI && d.pcSel rs1 rs2 == pcBranch)

/-- `next` is decoded as reading the register that the load `d` writes. The register may
be `x0`. -/
def IdEx.loadUse (d next : IdEx) : Bool :=
  d.memRden && ((next.rs1Used && next.rs1Addr == d.regWriteAddr) ||
    (next.rs2Used && next.rs2Addr == d.regWriteAddr))

/-- `mem_data` of the instruction. -/
def IdEx.memData (d : IdEx) : BitVec 3 := d.memSize ++ BitVec.ofBool d.memSign

namespace Arch

variable (imem : InstructionMemory)

/-- The instruction at the program counter, decoded, with its operands read. -/
def decoded (a : Arch) : IdEx :=
  idExD (ifIdD a.pc (imem.at a.pc)) a.registers DontCare.zero

/-- The ALU result of the instruction. A load or store has its address here. -/
def aluResult (a : Arch) : Word :=
  (a.decoded imem).aluResult (a.decoded imem).rs1 (a.decoded imem).rs2

/-- Whether the instruction is a jump or a taken branch. -/
def taken (a : Arch) : Bool :=
  (a.decoded imem).taken (a.decoded imem).rs1 (a.decoded imem).rs2

/-- The address of the next instruction. -/
def nextPc (a : Arch) : Word :=
  programCounter false ((a.decoded imem).pcSel (a.decoded imem).rs1 (a.decoded imem).rs2)
    (a.pc + 4#32) ((a.decoded imem).targets (a.decoded imem).rs1)

/-- The write-back value. -/
def result (a : Arch) (load : Word) : Word :=
  fourToOneMux (a.pc + 4#32) DontCare.zero.wbCsr load (a.aluResult imem) (a.decoded imem).rfSel

/-- One instruction. -/
def step (a : Arch) (load : Word) : Arch where
  pc := a.nextPc imem
  registers :=
    a.registers.write (a.decoded imem).rfWe (a.decoded imem).regWriteAddr (a.result imem load)

/-- The register write of the instruction, if any. A write to `x0` is none. -/
def regWrite (a : Arch) (load : Word) : List (BitVec 5 × Word) :=
  if (a.decoded imem).rfWe && (a.decoded imem).regWriteAddr != 0#5 then
    [((a.decoded imem).regWriteAddr, a.result imem load)]
  else []

/-- The bus write of the instruction, if any. -/
def busWrite (a : Arch) : List BusWrite :=
  if (a.decoded imem).memWe then
    [(a.aluResult imem, (a.decoded imem).memData, (a.decoded imem).rs2)]
  else []

/-- The cycles the pipeline loses between instruction `a` and its successor `a'`. -/
def delay (a a' : Arch) : ℕ :=
  2 * (a.taken imem).toNat + ((a.decoded imem).loadUse (a'.decoded imem)).toNat

end Arch

/-! ### The machine with a memory attached -/

/-- A memory responder: what a read request at an address and size returns, and how a
write request moves the responder. -/
structure Responder (μ : Type*) where
  R : μ → Word → BitVec 3 → Word
  W : μ → Word → BitVec 3 → Word → μ

/-- The sequential machine and its responder. -/
structure SeqSystem (μ : Type*) where
  arch : Arch
  mem : μ

namespace SeqSystem

variable {μ : Type*} (imem : InstructionMemory) (resp : Responder μ)

/-- The value the responder has for the instruction. Only a load uses it. -/
def load (s : SeqSystem μ) : Word :=
  resp.R s.mem (s.arch.aluResult imem) (s.arch.decoded imem).memData

/-- One instruction with its bus traffic. -/
def step (s : SeqSystem μ) : SeqSystem μ where
  arch := s.arch.step imem (s.load imem resp)
  mem :=
    if (s.arch.decoded imem).memWe then
      resp.W s.mem (s.arch.aluResult imem) (s.arch.decoded imem).memData (s.arch.decoded imem).rs2
    else s.mem

/-- The state before instruction `n`. -/
def run (s : SeqSystem μ) : ℕ → SeqSystem μ
  | 0 => s
  | n + 1 => (run s n).step imem resp

/-- The register write of the next instruction. -/
def regWrite (s : SeqSystem μ) : List (BitVec 5 × Word) :=
  s.arch.regWrite imem (s.load imem resp)

/-- The register writes of the first `n` instructions. -/
def regWrites (s : SeqSystem μ) (n : ℕ) : List (BitVec 5 × Word) :=
  Clocked.trace (fun k => (s.run imem resp k).regWrite imem resp) n

/-- The bus writes of the first `n` instructions. -/
def busWrites (s : SeqSystem μ) (n : ℕ) : List BusWrite :=
  Clocked.trace (fun k => (s.run imem resp k).arch.busWrite imem) n

end SeqSystem

/-- The core and its responder. `dataIn` is `DATA_IN` in the current cycle. -/
structure Attached (μ : Type*) where
  cpu : CpuTop
  mem : μ
  dataIn : Word

namespace Attached

variable {μ : Type*} (imem : InstructionMemory) (resp : Responder μ)

/-- One rising edge with `RST` low. A cycle with `IOBUS_WE` moves the responder, a cycle with
`IOBUS_RDEN` fixes `DATA_IN` of the next cycle. After any other cycle it is `idle`. -/
def step (s : Attached μ) (idle : Word) : Attached μ where
  cpu := s.cpu.step imem (CpuInput.run s.dataIn)
  mem :=
    if s.cpu.bus.iobusWe then
      resp.W s.mem s.cpu.bus.dataAddress s.cpu.bus.memData s.cpu.bus.dataOut
    else s.mem
  dataIn :=
    if s.cpu.bus.iobusRden then resp.R s.mem s.cpu.bus.dataAddress s.cpu.bus.memData
    else idle

/-- The register write of the current cycle. -/
def regWrite (s : Attached μ) : List (BitVec 5 × Word) :=
  s.cpu.regWrite s.dataIn DontCare.zero

/-- The register writes of the first `c` cycles. -/
def regWrites (s : Attached μ) (idle : ℕ → Word) (c : ℕ) : List (BitVec 5 × Word) :=
  Clocked.trace (fun k => (Clocked.run (step imem resp) s idle k).regWrite) c

/-- The bus writes of the first `c` cycles. -/
def busWrites (s : Attached μ) (idle : ℕ → Word) (c : ℕ) : List BusWrite :=
  Clocked.trace (fun k => (Clocked.run (step imem resp) s idle k).cpu.bus.write) c

end Attached

/-! ### The implemented instructions -/

/-- The legal encodings of the 37 implemented instructions. -/
def isImplemented (ir : Word) : Bool :=
  match opcodeOf ir with
  | 0b0110111#7 | 0b0010111#7 | 0b1101111#7 => true
  | 0b1100111#7 => funct3Of ir == 0b000#3
  | 0b0000011#7 => [0b000#3, 0b001#3, 0b010#3, 0b100#3, 0b101#3].contains (funct3Of ir)
  | 0b0100011#7 => [0b000#3, 0b001#3, 0b010#3].contains (funct3Of ir)
  | 0b1100011#7 => [0b000#3, 0b001#3, 0b100#3, 0b101#3, 0b110#3, 0b111#3].contains (funct3Of ir)
  | 0b0010011#7 =>
    match funct3Of ir with
    | 0b001#3 => funct7Of ir == 0b0000000#7
    | 0b101#3 => funct7Of ir == 0b0000000#7 || funct7Of ir == 0b0100000#7
    | _ => true
  | 0b0110011#7 =>
    match funct3Of ir with
    | 0b000#3 | 0b101#3 => funct7Of ir == 0b0000000#7 || funct7Of ir == 0b0100000#7
    | _ => funct7Of ir == 0b0000000#7
  | _ => false

/-- An `ECALL` or `EBREAK`: `opcode` 1110011 with `func3` 000, whatever the other fields. -/
def isTrap (ir : Word) : Bool := opcodeOf ir == 0b1110011#7 && funct3Of ir == 0b000#3

/-- The word writes neither a register nor the bus. -/
def writesNothing (ir : Word) : Bool :=
  let c := controlUnitDecoder (opcodeOf ir) (funct3Of ir) (ir.getLsbD 30) DontCare.zero
  !c.memWe && (!c.rfWe || rdOf ir == 0#5)

/-- The `FENCE` opcode. -/
def isFence (ir : Word) : Bool := opcodeOf ir == 0b0001111#7

end Rv32iPipeline
