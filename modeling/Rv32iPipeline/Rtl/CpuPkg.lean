import Mathlib.Tactic.Common

/-!
# `Rv32iPipeline.Rtl.CpuPkg`: the shared types of `CPU_pkg.sv`

The package holds the encodings of the control fields, the four pipeline
registers and the instruction-name decoder. A packed `logic [n-1:0]` field is a
`BitVec n` and a single bit is a `Bool`. The named encodings (`aluAdd`,
`srcbIType`, `wbAlu`, ...) are the enum members of the package.

Each pipeline register has a `zero` value: the `'0` that a reset or a flush
loads. Member `0` of `instr_name_e` is `LUI`, so the name field of a cleared
register reads `LUI` and not `UNKNOWN`.
-/

set_option autoImplicit false

namespace Rv32iPipeline

/-- A 32-bit word. -/
abbrev Word := BitVec 32

/-- `instr_name_e`. -/
inductive InstrName where
  | lui | auipc | jal | jalr | lb | lh | lw | lbu
  | lhu | addi | slti | sltiu | ori | xori | andi
  | slli | srli | srai | beq | bne | blt | bge | bltu
  | bgeu | sb | sh | sw | add | sub | sll | slt | sltu
  | xor | srl | sra | or | and | unknown | ecallEbreak | fence
  deriving DecidableEq, Repr

/-! ### `alu_op_e` -/

def aluAdd : BitVec 4 := 0b0000#4
def aluSub : BitVec 4 := 0b1000#4
def aluAnd : BitVec 4 := 0b0111#4
def aluOr : BitVec 4 := 0b0110#4
def aluXor : BitVec 4 := 0b0100#4
def aluSll : BitVec 4 := 0b0001#4
def aluSrl : BitVec 4 := 0b0101#4
def aluSra : BitVec 4 := 0b1101#4
def aluSlt : BitVec 4 := 0b0010#4
def aluSltu : BitVec 4 := 0b0011#4
def aluLuiCopy : BitVec 4 := 0b1001#4

/-! ### `srca_sel_e` and `srcb_sel_e` -/

def srcaRs1 : Bool := false
def srcaUType : Bool := true

def srcbRs2 : BitVec 2 := 0b00#2
def srcbIType : BitVec 2 := 0b01#2
def srcbSType : BitVec 2 := 0b10#2
def srcbPc : BitVec 2 := 0b11#2

/-! ### `WB_sel_e` and `pc_sel_e` -/

def wbPc4 : BitVec 2 := 0b00#2
def wbCsr : BitVec 2 := 0b01#2
def wbDataIn : BitVec 2 := 0b10#2
def wbAlu : BitVec 2 := 0b11#2

def pcPc4 : BitVec 2 := 0b00#2
def pcJalr : BitVec 2 := 0b01#2
def pcBranch : BitVec 2 := 0b10#2
def pcJal : BitVec 2 := 0b11#2

/-- The four values of a two-bit select. -/
theorem sel_cases (sel : BitVec 2) :
    sel = 0b00#2 ∨ sel = 0b01#2 ∨ sel = 0b10#2 ∨ sel = 0b11#2 := by
  revert sel
  decide

/-! ### The pipeline registers -/

/-- `if_id_t`. -/
@[ext] structure IfId where
  pc : Word
  ir : Word
  instruction : InstrName
  deriving DecidableEq, Repr

/-- `id_ex_t`. -/
@[ext] structure IdEx where
  pc : Word
  func3 : BitVec 3
  srcASel : Bool
  rfWe : Bool
  memWe : Bool
  memRden : Bool
  branchI : Bool
  jalI : Bool
  jalrI : Bool
  memSign : Bool
  memSize : BitVec 2
  srcBSel : BitVec 2
  rfSel : BitVec 2
  regWriteAddr : BitVec 5
  aluFun : BitVec 4
  uType : Word
  iType : Word
  sType : Word
  bType : Word
  jType : Word
  rs1Addr : BitVec 5
  rs2Addr : BitVec 5
  rs1 : Word
  rs2 : Word
  rs1Used : Bool
  rs2Used : Bool
  trap : Bool
  ebrak : Bool
  instruction : InstrName
  deriving DecidableEq, Repr

/-- `ex_mem_t`. -/
@[ext] structure ExMem where
  pc : Word
  rfWe : Bool
  memWe : Bool
  memRden : Bool
  memSign : Bool
  memSize : BitVec 2
  rfSel : BitVec 2
  regWriteAddr : BitVec 5
  aluResult : Word
  dataIn : Word
  trap : Bool
  ebrak : Bool
  instruction : InstrName
  deriving DecidableEq, Repr

/-- `mem_wb_t`. -/
@[ext] structure MemWb where
  rfWe : Bool
  regWriteAddr : BitVec 5
  regWriteData : Word
  trap : Bool
  ebrak : Bool
  instruction : InstrName
  deriving DecidableEq, Repr

/-- `'0` in IF/ID. -/
def IfId.zero : IfId := ⟨0#32, 0#32, .lui⟩

/-- `'0` in ID/EX. -/
def IdEx.zero : IdEx where
  pc := 0#32
  func3 := 0#3
  srcASel := false
  rfWe := false
  memWe := false
  memRden := false
  branchI := false
  jalI := false
  jalrI := false
  memSign := false
  memSize := 0#2
  srcBSel := 0#2
  rfSel := 0#2
  regWriteAddr := 0#5
  aluFun := 0#4
  uType := 0#32
  iType := 0#32
  sType := 0#32
  bType := 0#32
  jType := 0#32
  rs1Addr := 0#5
  rs2Addr := 0#5
  rs1 := 0#32
  rs2 := 0#32
  rs1Used := false
  rs2Used := false
  trap := false
  ebrak := false
  instruction := .lui

/-- `'0` in EX/MEM. -/
def ExMem.zero : ExMem :=
  ⟨0#32, false, false, false, false, 0#2, 0#2, 0#5, 0#32, 0#32, false, false, .lui⟩

/-- `'0` in MEM/WB. -/
def MemWb.zero : MemWb := ⟨false, 0#5, 0#32, false, false, .lui⟩

/-! ### Instruction fields -/

/-- `ir[6:0]`. -/
def opcodeOf (ir : Word) : BitVec 7 := ir.extractLsb' 0 7

/-- `ir[11:7]`. -/
def rdOf (ir : Word) : BitVec 5 := ir.extractLsb' 7 5

/-- `ir[14:12]`. -/
def funct3Of (ir : Word) : BitVec 3 := ir.extractLsb' 12 3

/-- `ir[19:15]`. -/
def rs1Of (ir : Word) : BitVec 5 := ir.extractLsb' 15 5

/-- `ir[24:20]`. -/
def rs2Of (ir : Word) : BitVec 5 := ir.extractLsb' 20 5

/-- `ir[31:25]`. -/
def funct7Of (ir : Word) : BitVec 7 := ir.extractLsb' 25 7

/-- `decode_instr_name`. -/
def decodeInstrName (ir : Word) : InstrName :=
  match opcodeOf ir with
  | 0b0001111#7 => .fence
  | 0b0110111#7 => .lui
  | 0b0010111#7 => .auipc
  | 0b1101111#7 => .jal
  | 0b1100111#7 => .jalr
  -- the loads
  | 0b0000011#7 =>
    match funct3Of ir with
    | 0b000#3 => .lb
    | 0b001#3 => .lh
    | 0b010#3 => .lw
    | 0b100#3 => .lbu
    | 0b101#3 => .lhu
    | _ => .unknown
  -- the ALU instructions with an immediate
  | 0b0010011#7 =>
    match funct3Of ir with
    | 0b000#3 => .addi
    | 0b010#3 => .slti
    | 0b011#3 => .sltiu
    | 0b110#3 => .ori
    | 0b100#3 => .xori
    | 0b111#3 => .andi
    | 0b001#3 => .slli
    | 0b101#3 =>
      -- `ir[31:25]` in full here, while the decoder looks at `ir[30]` only
      match funct7Of ir with
      | 0b0000000#7 => .srli
      | 0b0100000#7 => .srai
      | _ => .unknown
    | _ => .unknown
  -- the branches
  | 0b1100011#7 =>
    match funct3Of ir with
    | 0b000#3 => .beq
    | 0b001#3 => .bne
    | 0b100#3 => .blt
    | 0b101#3 => .bge
    | 0b110#3 => .bltu
    | 0b111#3 => .bgeu
    | _ => .unknown
  -- the stores
  | 0b0100011#7 =>
    match funct3Of ir with
    | 0b000#3 => .sb
    | 0b001#3 => .sh
    | 0b010#3 => .sw
    | _ => .unknown
  -- the ALU instructions on two registers
  | 0b0110011#7 =>
    match funct3Of ir with
    | 0b000#3 => if funct7Of ir = 0b0100000#7 then .sub else .add
    | 0b001#3 => .sll
    | 0b010#3 => .slt
    | 0b011#3 => .sltu
    | 0b100#3 => .xor
    | 0b101#3 => if funct7Of ir = 0b0100000#7 then .sra else .srl
    | 0b110#3 => .or
    | 0b111#3 => .and
    | _ => .unknown
  -- `SYSTEM`: one name for `ECALL` and `EBREAK`
  | 0b1110011#7 =>
    match funct3Of ir with
    | 0b000#3 => .ecallEbreak
    | _ => .unknown
  | _ => .unknown

end Rv32iPipeline
