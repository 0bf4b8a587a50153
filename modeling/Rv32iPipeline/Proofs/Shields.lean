import Rv32iPipeline.Proofs.BusPath

/-!
# `Rv32iPipeline.Proofs.Shields`: programs that the shipped data path runs correctly

`DMEM` formats the word of a load with the bus pins of the next cycle. A load delivers its own data
when the instruction behind it keeps the load's `funct3` and byte offset on these pins and does not
wait for the load: it shields the load (`Shields`). In the board wrapper `DMEM` sees a second edge
by then, so a shield must not read another word there (`KeepsWord`).

`shieldedAt` tests one state of the RV32I machine: if the next instruction is a load from `DMEM` to
a register, a shield stands behind it. Loads of a device need none.

* `system_implements_rv32i`: on a shielded run of the RV32I machine with the devices, the one-clock
  system goes through the states of that machine.
-/

set_option autoImplicit false

namespace Rv32iPipeline

open CpuTop Clocked LittleEndian
open Rv32i (Instr Op Effect Hart Memory Machine LoadOp)

/-! ### Shields -/

/-- The word of an instruction on the address pins: an address or a result. A jump or branch leaves
some other word there. -/
def aluValue (i : Instr) (pc a b : Word) : Option Word :=
  match i with
  | .jal _ _ | .jalr _ _ _ | .branch _ _ _ _ => none
  | .load _ _ _ imm | .store _ _ _ imm => some (a + imm.signExtend 32)
  | _ => (i.effect pc a b).value

/-- Instruction `j` stands behind a load of `address` into `rd`, which the hart `h` executes next.
It does not read `rd`, it has the `funct3` of the load, and the word `v` that it puts on the address
pins has the byte offset of the load. -/
structure Shields (h : Hart) (rd : BitVec 5) (address : Word) (funct3 : BitVec 3) (j : Instr)
    (v : Word) : Prop where
  rs1 : j.rs1 ≠ some rd
  rs2 : j.rs2 ≠ some rd
  funct3 : funct3Of j.encode = funct3
  pins : aluValue j (h.pc + 4#32) (h.operand j.rs1) (h.operand j.rs2) = some v
  offset : byteOffsetOf v = byteOffsetOf address

/-- The instruction is a load. -/
def isLoad : Instr → Bool
  | .load _ _ _ _ => true
  | _ => false

/-- Instruction `j` with `v` on the address pins does not read another word of `DMEM`. -/
def KeepsWord (address : Word) (j : Instr) (v : Word) : Prop :=
  isLoad j = true → isDmem v = true → wordAddress v = wordAddress address

/-- `Shields`, and `KeepsWord` if `DMEM` sees two edges in a cycle of the core, as a test. -/
def shields (twice : Bool) (h : Hart) (rd : BitVec 5) (address : Word) (funct3 : BitVec 3)
    (j : Instr) : Bool :=
  j.rs1 != some rd && j.rs2 != some rd && funct3Of j.encode == funct3 &&
    match aluValue j (h.pc + 4#32) (h.operand j.rs1) (h.operand j.rs2) with
    | some v => byteOffsetOf v == byteOffsetOf address &&
        (!twice || !isLoad j || !isDmem v || wordAddress v == wordAddress address)
    | none => false

/-- A load from `DMEM` to a register, if that is what the hart executes next, is shielded. -/
def shieldedAt (imem : InstructionMemory) (twice : Bool) (h : Hart) : Bool :=
  match Instr.decode (imem.at h.pc) with
  | some (.load op rd rs1 imm) =>
    rd == 0#5 || !isDmem (h.regs.read rs1 + imm.signExtend 32) ||
      (Instr.decode (imem.at (h.pc + 4#32))).any
        (shields twice h rd (h.regs.read rs1 + imm.signExtend 32) op.funct3)
  | _ => true

/-- Another instruction than a load needs no shield. -/
theorem shieldedAt_of_not_load {imem : InstructionMemory} {twice : Bool} {h : Hart} {j : Instr}
    (hj : Instr.decode (imem.at h.pc) = some j) (hload : isLoad j = false) :
    shieldedAt imem twice h = true := by
  rw [shieldedAt, hj]
  cases j with
  | load op rd rs1 imm => exact absurd hload.symm Bool.false_ne_true
  | _ => rfl

/-- Nor does a load of a device. -/
theorem shieldedAt_of_device {imem : InstructionMemory} {twice : Bool} {h : Hart} {op : LoadOp}
    {rd rs1 : BitVec 5} {imm : BitVec 12}
    (hl : Instr.decode (imem.at h.pc) = some (.load op rd rs1 imm))
    (hdev : isDmem (h.regs.read rs1 + imm.signExtend 32) = false) :
    shieldedAt imem twice h = true := by
  rw [shieldedAt, hl]
  simp only [hdev, Bool.not_false, Bool.or_true, Bool.true_or]

/-- What the test says of an instruction behind a load. -/
theorem shields_eq_true {twice : Bool} {h : Hart} {rd : BitVec 5} {address : Word}
    {funct3 : BitVec 3} {j : Instr} (hs : shields twice h rd address funct3 j = true) :
    ∃ v, Shields h rd address funct3 j v ∧ (twice = true → KeepsWord address j v) := by
  simp only [shields, Bool.and_eq_true, bne_iff_ne, beq_iff_eq] at hs
  obtain ⟨⟨⟨h1, h2⟩, hf3⟩, hpins⟩ := hs
  cases hv : aluValue j (h.pc + 4#32) (h.operand j.rs1) (h.operand j.rs2) with
  | none => simp [hv] at hpins
  | some v =>
      simp only [hv, Bool.and_eq_true, beq_iff_eq] at hpins
      refine ⟨v, ⟨h1, h2, hf3, hv, hpins.1⟩, fun htwice hload hdmem => ?_⟩
      simpa [htwice, hload, hdmem] using hpins.2

/-- A shielded load has its shield. -/
theorem exists_shield {imem : InstructionMemory} {twice : Bool} {h : Hart}
    (hs : shieldedAt imem twice h = true) {op : LoadOp} {rd rs1 : BitVec 5} {imm : BitVec 12}
    (hl : Instr.decode (imem.at h.pc) = some (.load op rd rs1 imm)) (hrd : rd ≠ 0#5)
    (hdmem : isDmem (h.regs.read rs1 + imm.signExtend 32) = true) :
    ∃ j v, Instr.decode (imem.at (h.pc + 4#32)) = some j ∧
      Shields h rd (h.regs.read rs1 + imm.signExtend 32) op.funct3 j v ∧
      (twice = true → KeepsWord (h.regs.read rs1 + imm.signExtend 32) j v) := by
  simp only [shieldedAt, hl, hdmem, Bool.not_true, Bool.or_false, Bool.or_eq_true, beq_iff_eq, hrd,
    false_or, Option.any_eq_true] at hs
  obtain ⟨j, hj, hs⟩ := hs
  obtain ⟨v, hv⟩ := shields_eq_true hs
  exact ⟨j, v, hj, hv⟩

/-- Two words with one `funct3` have one `mem_data`. -/
theorem memData_congr {q q' : IfId} {regs regs' : Registers} {x x' : DontCare}
    (h : funct3Of q.ir = funct3Of q'.ir) :
    (idExD q regs x).memData = (idExD q' regs' x').memData := by
  show q.ir.extractLsb' 12 2 ++ BitVec.ofBool (q.ir.getLsbD 14)
    = q'.ir.extractLsb' 12 2 ++ BitVec.ofBool (q'.ir.getLsbD 14)
  rw [memSize_eq, memSign_eq, memSize_eq, memSign_eq, h]

section
variable {imem : InstructionMemory} {a : Arch} {j : Instr}
  (hj : Instr.decode (imem.at a.pc) = some j)
include hj

/-- The operation of a word that decodes. -/
theorem op_decode_of_decode : Op.decode (imem.at a.pc) = some (.instr j) := by
  rw [← encode_of_decode hj]
  exact op_decode_encode j

/-- The ALU result of an instruction is its word on the address pins. -/
theorem Arch.aluResult_eq {v : Word}
    (hv : aluValue j a.pc (a.hart.operand j.rs1) (a.hart.operand j.rs2) = some v) :
    a.aluResult imem = v ∧ ((a.decoded imem).rfSel = wbAlu ∨ (a.decoded imem).memWe = true ∨
      (a.decoded imem).memRden = true) := by
  have ho := executes_of_decode (op_decode_of_decode hj)
  have hsel := idExD_rfSel j a.pc a.registers DontCare.zero
  rw [encode_of_decode hj] at hsel
  -- an instruction that computes a value writes back the ALU result
  have hcompute : (a.hart.effect (.instr j)).rd.isSome = true →
      (a.hart.effect (.instr j)).value = some v → (a.decoded imem).rfSel = wbAlu →
      a.aluResult imem = v := by
    intro hrd hval hwb
    have hperf := Arch.performs ho
    have hwe : (a.decoded imem).rfWe = true := by
      cases hwe : (a.decoded imem).rfWe with
      | true => rfl
      | false =>
          rw [← hperf.rd, hwe] at hrd
          exact absurd hrd Bool.false_ne_true
    have hvalue := hperf.value hwe 0#32 0#32 DontCare.zero
    rw [hval, ExMem.writeData, exMemD, hwb] at hvalue
    exact hvalue
  cases j with
  | lui rd imm => exact ⟨hcompute rfl hv hsel, .inl hsel⟩
  | auipc rd imm => exact ⟨hcompute rfl hv hsel, .inl hsel⟩
  | jal rd off => exact absurd hv.symm (Option.some_ne_none v)
  | jalr rd rs1 imm => exact absurd hv.symm (Option.some_ne_none v)
  | branch op rs1 rs2 off => exact absurd hv.symm (Option.some_ne_none v)
  | load op rd rs1 imm =>
      obtain ⟨hrden, haddr, -⟩ := Arch.load_eq ho rfl
      exact ⟨haddr.symm.trans (Option.some.inj hv), .inr (.inr hrden)⟩
  | store op rs1 rs2 imm =>
      obtain ⟨hwe, haddr⟩ := Arch.store_eq ho rfl
      exact ⟨haddr.symm.trans (Option.some.inj hv), .inr (.inl hwe)⟩
  | opImm op rd rs1 imm => exact ⟨hcompute rfl hv hsel, .inl hsel⟩
  | shiftImm op rd rs1 shamt => exact ⟨hcompute rfl hv hsel, .inl hsel⟩
  | opReg op rd rs1 rs2 => exact ⟨hcompute rfl hv hsel, .inl hsel⟩

/-- An instruction that does not have `rd` as a source does not wait for a load into it. -/
theorem Arch.not_used {rd : BitVec 5} (h1 : j.rs1 ≠ some rd) (h2 : j.rs2 ≠ some rd) :
    ((a.decoded imem).rs1Used && (a.decoded imem).rs1Addr == rd) = false ∧
      ((a.decoded imem).rs2Used && (a.decoded imem).rs2Addr == rd) = false := by
  have hused := idExD_used j a.pc a.registers DontCare.zero
  rw [encode_of_decode hj] at hused
  have hused1 : (a.decoded imem).rs1Used = j.rs1.isSome := hused.1
  have hused2 : (a.decoded imem).rs2Used = j.rs2.isSome := hused.2
  constructor
  · cases hr : j.rs1 with
    | none => simp [hused1, hr]
    | some r =>
        obtain ⟨-, haddr⟩ := idExD_rs1 a.pc a.registers DontCare.zero hr
        rw [encode_of_decode hj] at haddr
        have haddr' : (a.decoded imem).rs1Addr = r := haddr
        have hne : r ≠ rd := fun h => h1 (hr.trans (congrArg some h))
        simp [haddr', hne]
  · cases hr : j.rs2 with
    | none => simp [hused2, hr]
    | some r =>
        obtain ⟨-, haddr⟩ := idExD_rs2 a.pc a.registers DontCare.zero hr
        rw [encode_of_decode hj] at haddr
        have haddr' : (a.decoded imem).rs2Addr = r := haddr
        have hne : r ≠ rd := fun h => h2 (hr.trans (congrArg some h))
        simp [haddr', hne]

end

/-! ### Behind a load -/

section
variable {imem : InstructionMemory} {a : Arch}

/-- A word that reads the bus is a load. -/
theorem Arch.exists_load {o : Op} (ho : Op.decode (imem.at a.pc) = some o)
    (hload : (a.decoded imem).memRden = true) :
    ∃ op rd rs1 imm, Instr.decode (imem.at a.pc) = some (.load op rd rs1 imm) := by
  have hacc := Arch.access_eq (executes_of_decode ho)
  have hnostore := ((a.decoded_coherent imem).load hload).2.2.1
  rw [hnostore, hload] at hacc
  rcases op_decode_eq_some ho with ⟨i, rfl, hi⟩ | ⟨rfl, -⟩
  · cases i with
    | load op rd rs1 imm => exact ⟨op, rd, rs1, imm, decode_eq_some_iff.mpr hi⟩
    | store op rs1 rs2 imm => exact absurd (Option.some.inj hacc) Rv32i.Access.noConfusion
    | _ => exact absurd hacc.symm (Option.some_ne_none _)
  · exact absurd hacc.symm (Option.some_ne_none _)

variable {op : LoadOp} {rd rs1 : BitVec 5} {imm : BitVec 12}
  (hl : Instr.decode (imem.at a.pc) = some (.load op rd rs1 imm))
include hl

/-- What the core sees of a load. -/
theorem Arch.load_fields : (a.decoded imem).memRden = true ∧
    a.aluResult imem = a.hart.regs.read rs1 + imm.signExtend 32 ∧
    (a.decoded imem).regWriteAddr = rd ∧ funct3Of (imem.at a.pc) = op.funct3 := by
  obtain ⟨hrden, haddr, -, -, hrd⟩ := Arch.load_eq (executes_of_decode (op_decode_of_decode hl)) rfl
  refine ⟨hrden, haddr.symm, (Option.some.inj hrd).symm, ?_⟩
  rw [← encode_of_decode hl]
  exact (iType_fields rd rs1 op.funct3 0b0000011#7 imm).2.2.1

/-- The state behind a load: the next word, and all registers but the destination as they were. -/
theorem Arch.load_step (load : Word) : (a.step imem load).pc = a.pc + 4#32 ∧
    ∀ r, r ≠ some rd → (a.step imem load).hart.operand r = a.hart.operand r := by
  have hstep := Arch.hart_step (executes_of_decode (op_decode_of_decode hl)) load
  refine ⟨congrArg Hart.pc hstep, fun r hr => ?_⟩
  rw [hstep]
  cases r with
  | none => rfl
  | some r => exact if_neg fun h => hr (congrArg some h.1)

/-- A load with a shield behind it loses no cycle. -/
theorem Arch.load_delay {load : Word} {j : Instr}
    (hj : Instr.decode (imem.at (a.pc + 4#32)) = some j) (h1 : j.rs1 ≠ some rd)
    (h2 : j.rs2 ≠ some rd) : a.delay imem (a.step imem load) = 0 := by
  obtain ⟨hrden, -, hrd, -⟩ := Arch.load_fields hl
  obtain ⟨-, -, -, hb, hjal, hjalr, -⟩ := (a.decoded_coherent imem).load hrden
  rw [← (Arch.load_step hl load).1] at hj
  obtain ⟨hu1, hu2⟩ := Arch.not_used hj h1 h2
  simp [Arch.delay, Arch.taken, IdEx.taken, hb, hjal, hjalr, IdEx.loadUse, hrd, hu1, hu2]

end

section
variable {imem : InstructionMemory} {st : ℕ → System} {din : ℕ → Word} {inp : ℕ → SystemInput}
  (H : Driven imem st din inp) {n : ℕ}
  (hok : ∀ m < n, ((executed imem st din m).state.decoded imem).trap = false)
  {op : LoadOp} {rd rs1 : BitVec 5} {imm : BitVec 12}
  (hl : Instr.decode (imem.at (executed imem st din n).state.pc) = some (.load op rd rs1 imm))
include H hok hl

/-- With a shield behind the load, the bus pins of the next cycle carry the shield's word and the
`mem_data` of the load. They ask for a read only if the shield is a load. -/
theorem Driven.shield_pins {j : Instr} {v address : Word}
    (hj : Instr.decode (imem.at ((executed imem st din n).state.pc + 4#32)) = some j)
    (hs : Shields (executed imem st din n).state.hart rd address op.funct3 j v) :
    (st ((executed imem st din n).due + 1)).cpu.bus.memData
        = ((executed imem st din n).state.decoded imem).memData ∧
      (st ((executed imem st din n).due + 1)).cpu.bus.dataAddress = v ∧
      ((st ((executed imem st din n).due + 1)).cpu.bus.iobusRden = true →
        isLoad j = true) := by
  obtain ⟨hrden, -, -, hf3⟩ := Arch.load_fields hl
  obtain ⟨hpc, hopd⟩ := Arch.load_step hl (din ((executed imem st din n).due + 1))
  have htrap := ((Arch.decoded_coherent imem _).load hrden).2.2.2.2.2.2
  have hdue := H.due_next hok htrap (Arch.load_delay hl hj hs.rs1 hs.rs2)
  -- the shield is in EX, with the operands it would have had before the load
  have hj' : Instr.decode (imem.at (executed imem st din (n + 1)).state.pc) = some j := by
    rw [← hj, ← hpc]
    rfl
  have hpins : aluValue j (executed imem st din (n + 1)).state.pc
      ((executed imem st din (n + 1)).state.hart.operand j.rs1)
      ((executed imem st din (n + 1)).state.hart.operand j.rs2) = some v := by
    rw [← hs.pins, ← hopd _ hs.rs1, ← hopd _ hs.rs2]
    exact congrArg (fun pc => aluValue j pc _ _) hpc
  obtain ⟨halu, hused⟩ := Arch.aluResult_eq hj' hpins
  obtain ⟨-, hbrden, hmd, -, -⟩ := hdue.bus_commit
  refine ⟨hmd.trans (memData_congr ?_), (hdue.dataAddress_commit hused).trans halu, fun hr => ?_⟩
  · show funct3Of (imem.at (executed imem st din (n + 1)).state.pc) = funct3Of (imem.at _)
    rw [hf3, ← encode_of_decode hj', hs.funct3]
  · obtain ⟨op', rd', rs1', imm', h⟩ :=
      Arch.exists_load (op_decode_of_decode hj') (hbrden.symm.trans hr)
    rw [Option.some.inj (hj'.symm.trans h)]
    rfl

/-- The word that `DMEM` shows behind a shielded load is the load's own, also after a second edge
if the shield keeps it. -/
theorem Driven.shield_word {j : Instr} {v : Word}
    (hj : Instr.decode (imem.at ((executed imem st din n).state.pc + 4#32)) = some j)
    (hs : Shields (executed imem st din n).state.hart rd
      ((executed imem st din n).state.aluResult imem) op.funct3 j v)
    (hdmem : isDmem ((executed imem st din n).state.aluResult imem) = true) :
    let s := st ((executed imem st din n).due + 1)
    let w := (st (executed imem st din n).due).dmem.memory
      (wordAddress ((executed imem st din n).state.aluResult imem))
    s.dmem.memReadWord = w ∧ (KeepsWord ((executed imem st din n).state.aluResult imem) j v →
      s.nextDmem.memReadWord = w) := by
  intro s w
  obtain ⟨-, haddr, hrden⟩ := H.shield_pins hok hl hj hs
  have hword := H.word hok (Arch.load_fields hl).1 hdmem
  have hkept : s.dmem.memReadWord = w := congrArg Dmem.memReadWord hword
  refine ⟨hkept, fun hkeep => ?_⟩
  show (if s.enables.dmemRden then s.dmem.memory (wordAddress s.cpu.bus.dataAddress)
    else s.dmem.memReadWord) = w
  split
  · -- the second edge reads for a shield that is a load of the same word
    rename_i hen
    rw [System.enables, (enables_dmem _ _ _).2, Bool.and_eq_true, haddr] at hen
    rw [haddr, hkeep (hrden hen.1) hen.2, congrArg Dmem.memory hword]
  · exact hkept

/-- A load into a register gets the answer of the devices, when it is shielded or needs no
shield. -/
theorem Driven.load_answer {twice : Bool} {d : Devices}
    (hd : d.dmem = wordBytes (st 0).dmem.memory) (hrd : rd ≠ 0#5)
    (hsh : shieldedAt imem twice (executed imem st din n).state.hart = true)
    (hdin : ∀ c, din c = if twice then (st c).lateDataIn else (st c).dataIn) :
    din ((executed imem st din n).due + 1)
      = (devicesAt imem (executed imem st din) d n).load
          (inp (executed imem st din n).due).switches (inp (executed imem st din n).due).buttons
          ((executed imem st din n).state.aluResult imem)
          (accessBytes (memSizeOf ((executed imem st din n).state.decoded imem).memData))
          (memSignOf ((executed imem st din n).state.decoded imem).memData) := by
  obtain ⟨hrden, haddr, -, -⟩ := Arch.load_fields hl
  have hanswer := H.answer hok hrden
  -- whatever `DMEM` shows, the registered region picks
  have hlate : ∃ m : Dmem, din ((executed imem st din n).due + 1)
        = (st ((executed imem st din n).due + 1)).interconnect.iobusIn
            (m.dataOut (st ((executed imem st din n).due + 1)).cpu.bus.dataAddress
              (st ((executed imem st din n).due + 1)).cpu.bus.memData) ∧
      m = if twice then (st ((executed imem st din n).due + 1)).nextDmem
        else (st ((executed imem st din n).due + 1)).dmem := by
    rw [hdin]
    cases twice with
    | false => exact ⟨_, rfl, rfl⟩
    | true => exact ⟨_, rfl, rfl⟩
  obtain ⟨m, hm, hmdef⟩ := hlate
  rw [hm, hanswer]
  by_cases hio : 0x11000000#32 ≤ (executed imem st din n).state.aluResult imem
  · rw [if_pos hio, Devices.load, if_pos hio]
  · rw [if_neg hio]
    by_cases hlow : 0x00003f60#32 ≤ (executed imem st din n).state.aluResult imem
    · have hdmem : isDmem ((executed imem st din n).state.aluResult imem) = true := by
        simp [isDmem, hio, hlow]
      obtain ⟨j, v, hj, hs, hkeep⟩ := exists_shield hsh hl hrd (haddr ▸ hdmem)
      have hs' : Shields (executed imem st din n).state.hart rd
          ((executed imem st din n).state.aluResult imem) op.funct3 j v := haddr ▸ hs
      obtain ⟨hmd, hv, -⟩ := H.shield_pins hok hl hj hs
      obtain ⟨hone, htwo⟩ := H.shield_word hok hl hj hs' hdmem
      have hword : m.memReadWord = (st (executed imem st din n).due).dmem.memory
          (wordAddress ((executed imem st din n).state.aluResult imem)) := by
        rw [hmdef]
        cases twice with
        | false => exact hone
        | true => exact htwo (haddr ▸ hkeep rfl)
      rw [if_pos hlow, Dmem.dataOut, hmd, hv, hs'.offset, hword]
      exact (Devices.load_dmem _ _ (H.devices hok hd) hdmem _).symm
    · rw [if_neg hlow, Devices.load, if_neg hio, if_neg hlow]

end

/-! ### Whole runs -/

section
variable {imem : InstructionMemory} {st : ℕ → System} {din : ℕ → Word} {inp : ℕ → SystemInput}

/-- The run of the RV32I machine on the devices, from address 0. Instruction `k` finds the
switches and buttons of the cycle in which the core completes it. -/
def deviceRun (imem : InstructionMemory) (st : ℕ → System) (din : ℕ → Word)
    (inp : ℕ → SystemInput) (d : Devices) (n : ℕ) : Option (Machine Devices) :=
  (⟨⟨0#32, (st 0).cpu.registers.file⟩, d⟩ : Machine Devices).run imem.at
    (fun k => Devices.memory (inp (executed imem st din k).due).switches
      (inp (executed imem st din k).due).buttons) n

/-- On a shielded run of the RV32I machine the executed path is that run. -/
theorem Driven.machine (H : Driven imem st din inp) (twice : Bool) {d : Devices}
    (hd : d.dmem = wordBytes (st 0).dmem.memory)
    (hdin : ∀ c, din c = if twice then (st c).lateDataIn else (st c).dataIn) {n : ℕ}
    {h : Machine Devices} (hrun : deviceRun imem st din inp d n = some h)
    (hsh : ∀ k < n, ∀ hk, deviceRun imem st din inp d k = some hk →
      shieldedAt imem twice hk.hart = true) :
    h = ⟨(executed imem st din n).state.hart, devicesAt imem (executed imem st din) d n⟩ ∧
      ∀ m < n, ((executed imem st din m).state.decoded imem).trap = false := by
  have hmachine := @execution_machine imem (st 0).cpu.registers din d
    (fun k => (inp (executed imem st din k).due).switches)
    (fun k => (inp (executed imem st din k).due).buttons) n h hrun
  refine hmachine fun k hk o ho hok hrunk hrden hrd => ?_
  obtain ⟨op, rd, rs1, imm, hl⟩ := Arch.exists_load ho hrden
  have hrd' : rd ≠ 0#5 := fun h0 => hrd ((Arch.load_fields hl).2.2.1.trans h0)
  have hsh' := hsh k hk _ hrunk
  exact H.load_answer hok hl hd hrd' hsh' hdin

/-- The cycle that completes instruction `n`, when the path up to there is a run of the RV32I
machine: where the core stands, and when. -/
theorem Driven.completes (H : Driven imem st din inp) {n : ℕ}
    (hok : ∀ m < n, ((executed imem st din m).state.decoded imem).trap = false) :
    n + 2 ≤ (executed imem st din n).due ∧ (executed imem st din n).due ≤ 3 * n + 2 ∧
      (st (executed imem st din n).due).cpu.completes = true ∧
      (st (executed imem st din n).due).cpu.idExQ.pc = (executed imem st din n).state.hart.pc ∧
      (st ((executed imem st din n).due + 1)).cpu.registers.file
        = (executed imem st din n).state.hart.regs := by
  have hdue := H.due hok
  obtain ⟨hlow, hhigh⟩ := executed_due imem st din n
  refine ⟨hlow, hhigh, hdue.completes_iff.mpr rfl, (hdue.execute.1.inEx rfl).pc_eq, ?_⟩
  rw [H.cpu, hdue.execute.1.registers_step]
  rfl

end

/-- The devices of the one-clock system. It has no LEDs and no display. -/
def System.devices (s : System) : Devices := ⟨wordBytes s.dmem.memory, 0#16, 0#16⟩

/-- The run of the RV32I machine that starts as the system does, with its switches and buttons. -/
def System.deviceRun (imem : InstructionMemory) (s : System) (inp : ℕ → SystemInput) (n : ℕ) :
    Option (Machine Devices) :=
  Rv32iPipeline.deviceRun imem (s.run imem inp) (fun c => (s.run imem inp c).dataIn) inp
    s.devices n

/-- **Shielded programs run correctly on the one-clock system.** The system is out of reset.
Whenever the RV32I machine on the devices gets to instruction `n`, and every load from `DMEM` on
the way was shielded, the core completes instruction `n` in a cycle `c` between `n + 2` and
`3 * n + 2`, with the machine's program counter, and `DMEM` has the machine's bytes. Behind the
next edge the registers are the machine's. -/
theorem system_implements_rv32i (imem : InstructionMemory) {s : System}
    (hstart : s.cpu = outOfReset imem s.cpu.registers) {inp : ℕ → SystemInput}
    (hrst : ∀ c, (inp c).rst = false) {n : ℕ} {h : Machine Devices}
    (hrun : s.deviceRun imem inp n = some h)
    (hshield : ∀ k < n, ∀ hk, s.deviceRun imem inp k = some hk →
      shieldedAt imem false hk.hart = true) :
    ∃ c, n + 2 ≤ c ∧ c ≤ 3 * n + 2 ∧ (s.run imem inp c).cpu.completes = true ∧
      (s.run imem inp c).cpu.idExQ.pc = h.hart.pc ∧
      wordBytes (s.run imem inp c).dmem.memory = h.mem.dmem ∧
      (s.run imem inp (c + 1)).cpu.registers.file = h.hart.regs := by
  have H := System.driven hstart hrst
  obtain ⟨rfl, hok⟩ := H.machine false (d := s.devices) rfl (fun _ => rfl) hrun hshield
  obtain ⟨hlow, hhigh, hdone, hpc, hregs⟩ := H.completes hok
  exact ⟨_, hlow, hhigh, hdone, hpc, (H.devices hok rfl).symm, hregs⟩

/-- `lw x1, 0(x2)` with `x2 = 0x3F60`, and then `slti x0, x0, 0` everywhere: the shield has the
`funct3` of the load and puts zero on the address pins. -/
theorem system_implements_rv32i_lw :
    let imem : InstructionMemory := fun a => if a = 0#13 then 0x00012083#32 else 0x00002013#32
    let s : System := ⟨outOfReset imem fun _ => 0x00003F60#32, ⟨.none, 0#32⟩,
      ⟨fun _ => 0x12345678#32, 0#32⟩⟩
    let inp : ℕ → SystemInput := fun _ => ⟨false, 0#32, 0#32⟩
    ∃ c ≤ 5, (s.run imem inp (c + 1)).cpu.registers.file.read 1#5 = 0x12345678#32 := by
  intro imem s inp
  have hrun :=
    (Option.some_get (show (s.deviceRun imem inp 1).isSome = true by decide +kernel)).symm
  have hshield : ∀ k < 1, ∀ hk, s.deviceRun imem inp k = some hk →
      shieldedAt imem false hk.hart = true := by
    intro k hk h hrunk
    obtain rfl : k = 0 := by omega
    obtain rfl := Option.some.inj hrunk
    decide +kernel
  obtain ⟨c, -, hc, -, -, -, hregs⟩ :=
    system_implements_rv32i imem (s := s) rfl (fun _ => rfl) hrun hshield
  refine ⟨c, hc, ?_⟩
  rw [hregs]
  decide +kernel

end Rv32iPipeline
