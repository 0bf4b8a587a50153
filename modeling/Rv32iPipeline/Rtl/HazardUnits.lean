import Rv32iPipeline.Rtl.CpuPkg

/-!
# `Rv32iPipeline.Rtl.HazardUnits`: `Forwarding_Unit.sv` and `HazardUnit.sv`

The forwarding unit picks the operand source of each EX port (`00` the captured
register value, `01` the ALU result in MEM, `10` the value in WB, `11` zero) and
raises the load-use stall. The two ports run the same comparison chain, so it is
one definition, `forwardSel`, with the port's own pins as arguments.

The hazard unit flushes IF/ID and ID/EX behind a jump, a taken branch or a trap in
EX, and does nothing while the pipeline is stalled.
-/

set_option autoImplicit false

namespace Rv32iPipeline

/-- The output pins of `Forwarding_Unit`. -/
structure ForwardingOut where
  stallIfId : Bool
  stallIdEx : Bool
  flushExMem : Bool
  srcAForwardSel : BitVec 2
  srcBForwardSel : BitVec 2

/-- Cases 2 and 4: the port reads the destination of a load that is in MEM. -/
def readsMemLoad (exAddr memAddr : BitVec 5) (memRegWe memDmemRden exUsed : Bool) : Bool :=
  exAddr == memAddr && memRegWe && memDmemRden && exUsed

/-- Cases 1 and 5 for port A, 3 and 6 for port B: the newest register write that matches
the port's address. A match on `x0` selects the constant zero. -/
def forwardSel (exAddr memAddr wbAddr : BitVec 5) (memRegWe memDmemRden wbRegWe exUsed : Bool) :
    BitVec 2 :=
  -- MEM holds the newer value, so it is asked before WB
  if exAddr == memAddr && memRegWe && !memDmemRden && exUsed then
    if exAddr = 0b00000#5 then 0b11#2 else 0b01#2
  else if exAddr == wbAddr && wbRegWe && exUsed then
    if exAddr = 0b00000#5 then 0b11#2 else 0b10#2
  else 0b00#2

/-- `Forwarding_Unit`. -/
def forwardingUnit (exRs1ReadAddr exRs2ReadAddr : BitVec 5) (exRs1Used exRs2Used : Bool)
    (memRegWriteAddr wbRegWriteAddr : BitVec 5) (memRegWe memDmemRden wbRegWe : Bool) :
    ForwardingOut :=
  let loadUse :=
    if readsMemLoad exRs1ReadAddr memRegWriteAddr memRegWe memDmemRden exRs1Used then true
    else if readsMemLoad exRs2ReadAddr memRegWriteAddr memRegWe memDmemRden exRs2Used then true
    else false
  { stallIfId := loadUse
    stallIdEx := loadUse
    flushExMem := loadUse
    srcAForwardSel :=
      forwardSel exRs1ReadAddr memRegWriteAddr wbRegWriteAddr memRegWe memDmemRden wbRegWe
        exRs1Used
    srcBForwardSel :=
      forwardSel exRs2ReadAddr memRegWriteAddr wbRegWriteAddr memRegWe memDmemRden wbRegWe
        exRs2Used }

/-- The output pins of `HazardUnit`. -/
structure HazardOut where
  flushIfId : Bool
  flushIdEx : Bool
  deriving DecidableEq

/-- `HazardUnit`. -/
def hazardUnit (branchI jalI jalrI : Bool) (pcSel : BitVec 2) (ifIdStall trap : Bool) : HazardOut :=
  -- the operands of a stalled instruction are not there yet
  if ifIdStall then ⟨false, false⟩
  else if jalI || jalrI then ⟨true, true⟩
  else if branchI && pcSel == pcBranch then ⟨true, true⟩
  else if trap then ⟨true, true⟩
  else ⟨false, false⟩

end Rv32iPipeline
