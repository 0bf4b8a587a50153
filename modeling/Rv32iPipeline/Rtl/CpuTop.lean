import Rv32iPipeline.Rtl.Datapath
import Rv32iPipeline.Rtl.ControlUnitDecoder
import Rv32iPipeline.Rtl.HazardUnits

/-!
# `Rv32iPipeline.Rtl.CpuTop`: `CPU_TOP.sv` and `IMEM.sv`

`CpuTop` holds every flop of the core: the output register of `IMEM`, the four
pipeline registers, `halt_sig` and the register array. `CpuTop.step` is one rising
clock edge. The wires of the module are functions of the flops. Only the write-back
value also reads the `DATA_IN` pin, so the bus outputs never depend on `DATA_IN`
within a cycle.

The `_d` records of the source are functions here (`ifIdD`, `idExD`, `exMemD`,
`memWbD`). The EX stage reads ID/EX and the two forwarded operands, so its blocks
are functions of an `IdEx` and two words. The sequential machine of `Spec/` runs
the same functions on the operands it reads itself.
-/

set_option autoImplicit false

namespace Rv32iPipeline

/-- `instruction_memory[0:8191]`. -/
abbrev InstructionMemory := BitVec 13 → Word

/-- The word `IMEM` reads at `PC`: word address `PC[14:2]`. -/
def InstructionMemory.at (imem : InstructionMemory) (pc : Word) : Word :=
  imem (pc.extractLsb' 2 13)

/-! ### The stages as functions of the pipeline registers -/

/-- `if_id_d`. -/
def ifIdD (pcUsed ir : Word) : IfId where
  pc := pcUsed
  ir := ir
  instruction := decodeInstrName ir

/-- `id_ex_d`: the decode stage on IF/ID and the register file. -/
def idExD (q : IfId) (regs : Registers) (x : DontCare) : IdEx :=
  let c := controlUnitDecoder (opcodeOf q.ir) (funct3Of q.ir) (q.ir.getLsbD 30) x
  let imm := immediateGenerator (q.ir.extractLsb' 7 25)
  { pc := q.pc
    func3 := funct3Of q.ir
    srcASel := c.srcASel
    rfWe := c.rfWe
    memWe := c.memWe
    memRden := c.memRden
    branchI := c.branchI
    jalI := c.jalI
    jalrI := c.jalrI
    -- `func3` of a load or store holds the sign and the size
    memSign := q.ir.getLsbD 14
    memSize := q.ir.extractLsb' 12 2
    srcBSel := c.srcBSel
    rfSel := c.rfSel
    regWriteAddr := rdOf q.ir
    aluFun := c.aluFun
    uType := imm.uType
    iType := imm.iType
    sType := imm.sType
    bType := imm.bType
    jType := imm.jType
    rs1Addr := rs1Of q.ir
    rs2Addr := rs2Of q.ir
    rs1 := regs.read (rs1Of q.ir)
    rs2 := regs.read (rs2Of q.ir)
    rs1Used := c.rs1Used
    rs2Used := c.rs2Used
    trap := c.systemCall
    -- the two comparisons exclude each other, so `ebrak` is never set
    ebrak := funct3Of q.ir == 0b000#3 && funct3Of q.ir == 0b001#3
    instruction := q.instruction }

/-- The ALU with its two operand muxes. -/
def IdEx.aluResult (d : IdEx) (realRs1 realRs2 : Word) : Word :=
  alu (twoToOneMux realRs1 d.uType d.srcASel)
    (fourToOneMux realRs2 d.iType d.sType d.pc d.srcBSel) d.aluFun

/-- `PC_SEL`. -/
def IdEx.pcSel (d : IdEx) (realRs1 realRs2 : Word) : BitVec 2 :=
  pcDecoder (branchConditionGenerator realRs1 realRs2) d.branchI d.jalI d.jalrI d.func3

/-- `jalr`, `branch` and `jal`. -/
def IdEx.targets (d : IdEx) (realRs1 : Word) : Targets :=
  jumpBranchAddressGenerator d.pc d.jType d.bType d.iType realRs1

/-- `ex_mem_d`. -/
def exMemD (d : IdEx) (aluResult dataIn : Word) : ExMem where
  pc := d.pc
  rfWe := d.rfWe
  rfSel := d.rfSel
  regWriteAddr := d.regWriteAddr
  aluResult := aluResult
  memSize := d.memSize
  memSign := d.memSign
  memRden := d.memRden
  memWe := d.memWe
  dataIn := dataIn
  trap := d.trap
  ebrak := d.ebrak
  instruction := d.instruction

/-- `write_data`: the output of `reg_MUX`. -/
def ExMem.writeData (q : ExMem) (dataIn : Word) (x : DontCare) : Word :=
  fourToOneMux (q.pc + 4#32) x.wbCsr dataIn q.aluResult q.rfSel

/-- `mem_wb_d`. -/
def memWbD (q : ExMem) (writeData : Word) : MemWb where
  rfWe := q.rfWe
  regWriteAddr := q.regWriteAddr
  instruction := q.instruction
  regWriteData := writeData
  trap := q.trap
  ebrak := q.ebrak

/-! ### The core -/

/-- The flops of `CPU_TOP`. `ir` and `pcUsed` are the output register of `IMEM`. -/
@[ext] structure CpuTop where
  ir : Word
  pcUsed : Word
  ifIdQ : IfId
  idExQ : IdEx
  exMemQ : ExMem
  memWbQ : MemWb
  haltSig : Bool
  registers : Registers

/-- The input pins in one cycle, and the value of each bit that is `'X` in it. -/
structure CpuInput where
  rst : Bool
  dataIn : Word
  x : DontCare

/-- `RST` low, every `'X` read as 0. -/
def CpuInput.run (dataIn : Word) : CpuInput := ⟨false, dataIn, DontCare.zero⟩

/-- `RST` high, every `'X` read as 0. -/
def CpuInput.reset (dataIn : Word) : CpuInput := ⟨true, dataIn, DontCare.zero⟩

/-- The bus pins in one cycle. -/
structure Bus where
  memData : BitVec 3
  dataAddress : Word
  dataOut : Word
  iobusRden : Bool
  iobusWe : Bool
  deriving DecidableEq, Repr

namespace CpuTop

/-- The pins of the forwarding unit. -/
def forwarding (s : CpuTop) : ForwardingOut :=
  forwardingUnit s.idExQ.rs1Addr s.idExQ.rs2Addr s.idExQ.rs1Used s.idExQ.rs2Used
    s.exMemQ.regWriteAddr s.memWbQ.regWriteAddr s.exMemQ.rfWe s.exMemQ.memRden s.memWbQ.rfWe

/-- `real_rs1`. -/
def realRs1 (s : CpuTop) : Word :=
  fourToOneMux s.idExQ.rs1 s.exMemQ.aluResult s.memWbQ.regWriteData 0#32 s.forwarding.srcAForwardSel

/-- `real_rs2`. -/
def realRs2 (s : CpuTop) : Word :=
  fourToOneMux s.idExQ.rs2 s.exMemQ.aluResult s.memWbQ.regWriteData 0#32 s.forwarding.srcBForwardSel

/-- `ALU_result`. -/
def aluResult (s : CpuTop) : Word := s.idExQ.aluResult s.realRs1 s.realRs2

/-- `PC_SEL`. -/
def pcSel (s : CpuTop) : BitVec 2 := s.idExQ.pcSel s.realRs1 s.realRs2

/-- The load-use stall: `FORW_STALL_IF_ID`, `FORW_STALL_ID_EX` and `FORW_FLUSH_EX_MEM` are
one signal in the forwarding unit. -/
def stall (s : CpuTop) : Bool := s.forwarding.stallIfId

/-- The pins of the hazard unit. -/
def hazard (s : CpuTop) : HazardOut :=
  hazardUnit s.idExQ.branchI s.idExQ.jalI s.idExQ.jalrI s.pcSel s.forwarding.stallIfId
    s.idExQ.trap

/-- `freeze`. -/
def freeze (s : CpuTop) : Bool :=
  s.idExQ.trap || s.exMemQ.trap || s.memWbQ.trap || s.haltSig

/-- `PC`: the address presented to `IMEM`. -/
def pc (s : CpuTop) (rst : Bool) : Word :=
  programCounter rst s.pcSel (s.pcUsed + 4#32) (s.idExQ.targets s.realRs1)

/-- `write_data`. -/
def writeData (s : CpuTop) (dataIn : Word) (x : DontCare) : Word := s.exMemQ.writeData dataIn x

/-- The bus pins. -/
def bus (s : CpuTop) : Bus where
  memData := s.idExQ.memSize ++ BitVec.ofBool s.idExQ.memSign
  dataAddress := s.aluResult
  dataOut := s.realRs2
  iobusRden := s.idExQ.memRden
  -- a stalled store asks again in the next cycle, a stalled load asks in both
  iobusWe := s.idExQ.memWe && !s.forwarding.flushExMem

/-! The next value of each flop, in the branch order of its `always_ff` block. -/

/-- `IMEM`: a flush refetches even while frozen, a stall and a freeze hold `PC_USED`. -/
def nextFetch (imem : InstructionMemory) (s : CpuTop) (rst : Bool) : Word × Word :=
  -- a flush goes before the freeze: a trap in EX still fetches once
  if s.hazard.flushIfId && !s.forwarding.stallIfId then (imem.at (s.pc rst), s.pc rst)
  -- the stall has no exception for `RST`
  else if s.forwarding.stallIfId then (s.ir, s.pcUsed)
  -- the zero word that is meant as a no-op
  else if s.freeze then (0#32, s.pcUsed)
  else (imem.at (s.pc rst), s.pc rst)

/-- `if_id_q`. -/
def nextIfId (s : CpuTop) (rst : Bool) : IfId :=
  -- no freeze here: IF/ID takes whatever `IMEM` puts out
  if rst || s.hazard.flushIfId then IfId.zero
  else if s.forwarding.stallIfId then s.ifIdQ
  else ifIdD s.pcUsed s.ir

/-- `id_ex_q`. A stall holds every field but the operands, which take the forwarded values. -/
def nextIdEx (s : CpuTop) (i : CpuInput) : IdEx :=
  if i.rst || s.hazard.flushIdEx then IdEx.zero
  else if s.forwarding.stallIdEx then { s.idExQ with rs1 := s.realRs1, rs2 := s.realRs2 }
  else idExD s.ifIdQ s.registers i.x

/-- `ex_mem_q`. -/
def nextExMem (s : CpuTop) (i : CpuInput) : ExMem :=
  if i.rst then ExMem.zero
  -- a load-use stall puts an empty slot between the load and its user
  else if s.forwarding.flushExMem then ExMem.zero
  else exMemD s.idExQ s.aluResult i.dataIn

/-- `mem_wb_q`. -/
def nextMemWb (s : CpuTop) (i : CpuInput) : MemWb :=
  if i.rst then MemWb.zero
  -- a trap in WB stays there
  else if s.haltSig || s.memWbQ.trap then s.memWbQ
  else memWbD s.exMemQ (s.writeData i.dataIn i.x)

/-- `halt_sig`: set by a trap in MEM/WB. The reset branch of its block does not assign it. -/
def nextHalt (s : CpuTop) (rst : Bool) : Bool :=
  if rst then s.haltSig
  else if s.haltSig || s.memWbQ.trap then true
  else s.haltSig

/-- `Reg_File`: written in the MEM stage. -/
def nextRegisters (s : CpuTop) (dataIn : Word) (x : DontCare) : Registers :=
  s.registers.write s.exMemQ.rfWe s.exMemQ.regWriteAddr (s.writeData dataIn x)

/-- One rising edge of `CLK`. -/
def step (imem : InstructionMemory) (s : CpuTop) (i : CpuInput) : CpuTop where
  ir := (s.nextFetch imem i.rst).1
  pcUsed := (s.nextFetch imem i.rst).2
  ifIdQ := s.nextIfId i.rst
  idExQ := s.nextIdEx i
  exMemQ := s.nextExMem i
  memWbQ := s.nextMemWb i
  haltSig := s.nextHalt i.rst
  registers := s.nextRegisters i.dataIn i.x

/-- The core out of reset: empty pipeline, `halt_sig` low, word 0 in the `IMEM` register. -/
def outOfReset (imem : InstructionMemory) (regs : Registers) : CpuTop where
  ir := imem.at 0#32
  pcUsed := 0#32
  ifIdQ := IfId.zero
  idExQ := IdEx.zero
  exMemQ := ExMem.zero
  memWbQ := MemWb.zero
  haltSig := false
  registers := regs

/-- The register write `Reg_File` performs at the end of the cycle, if any. -/
def regWrite (s : CpuTop) (dataIn : Word) (x : DontCare) : List (BitVec 5 × Word) :=
  if s.exMemQ.rfWe && s.exMemQ.regWriteAddr != 0#5 then
    [(s.exMemQ.regWriteAddr, s.writeData dataIn x)]
  else []

end CpuTop

/-- A bus write: address, size (`mem_data`) and data. -/
abbrev BusWrite := Word × BitVec 3 × Word

/-- The bus write of a cycle with these bus pins, if any. -/
def Bus.write (b : Bus) : List BusWrite :=
  if b.iobusWe then [(b.dataAddress, b.memData, b.dataOut)] else []

end Rv32iPipeline
