import Rv32iPipeline.Proofs.MemoryMap
import Rv32iPipeline.Spec.Machine

/-!
# `Rv32iPipeline.Proofs.Devices`: the data bus as a memory

`Devices` is what a program can write on the data bus: the bytes of `DMEM`, the LEDs and the
register of the seven-segment display. `Devices.memory` says how loads and stores act on them,
with the switches and the buttons as the load finds them. It is the memory map of `Interconnect`,
with `DMEM` as little-endian bytes.

An access of `DMEM` that leaves its word is not served: the store is dropped and the load reads
zero. A load of an MMIO address gives the whole register, whatever its size is.
-/

set_option autoImplicit false

namespace Rv32iPipeline

open LittleEndian
open Rv32i (Memory)

/-- The devices on the data bus that a store can change. -/
@[ext] structure Devices where
  dmem : Bytes 13
  leds : BitVec 16
  sseg : BitVec 16

namespace Devices

/-- The access stays in one word of `DMEM`. -/
def inWord (address : Word) (bytes : ℕ) : Bool := (byteOffsetOf address).toNat + bytes ≤ 4

/-- A load. There is no unsigned load of a whole word. -/
def load (switches buttons : Word) (d : Devices) (address : Word) (bytes : ℕ) (unsigned : Bool) :
    Word :=
  if 0x11000000#32 ≤ address then mmioValue address switches buttons
  else if 0x00003f60#32 ≤ address then
    if inWord address bytes && !(unsigned && bytes == 4) then
      let v := d.dmem.load 32 (byteIndex address) bytes
      if unsigned then v else (v.setWidth (8 * bytes)).signExtend 32
    else 0#32
  else 0#32

/-- A store. -/
def store (d : Devices) (address : Word) (bytes : ℕ) (data : Word) : Devices :=
  if 0x11000000#32 ≤ address then
    if address = 0x11000020#32 then { d with leds := data.setWidth 16 }
    else if address = 0x11000040#32 then { d with sseg := data.setWidth 16 }
    else d
  else if 0x00003f60#32 ≤ address ∧ inWord address bytes = true then
    { d with dmem := d.dmem.store (byteIndex address) bytes data }
  else d

/-- The data bus, while the switches and the buttons have these values. -/
def memory (switches buttons : Word) : Memory Devices where
  load := load switches buttons
  store := store

/-- The devices after a bus write. -/
def write (d : Devices) (b : BusWrite) : Devices :=
  d.store b.1 (accessBytes (memSizeOf b.2.1)) b.2.2

/-! ### `DMEM` behind the map -/

/-- The accesses inside a word are the supported ones. The fourth size has no bytes. -/
theorem inWord_iff (address : Word) (memSize : BitVec 2) :
    inWord address (accessBytes memSize) = true
      ↔ supportedAccess memSize (byteOffsetOf address) = true ∨ memSize = 0b11#2 := by
  unfold inWord
  generalize byteOffsetOf address = off
  revert off memSize
  decide

/-- A store of no bytes changes nothing. -/
theorem store_zero (m : Bytes 13) (a : BitVec 13) (v : Word) : m.store a 0 v = m := by
  funext b
  exact if_neg (Nat.not_lt_zero _)

/-- The bytes of `DMEM` after a bus write. -/
theorem write_dmem (d : Devices) (b : BusWrite) : (d.write b).dmem = storeWrite d.dmem b := by
  unfold write store storeWrite isDmem
  by_cases hio : 0x11000000#32 ≤ b.1
  · simp only [hio, if_true, decide_true, Bool.not_true, Bool.and_false, Bool.false_eq_true,
      if_false]
    split
    · rfl
    · split <;> rfl
  · by_cases hd : 0x00003f60#32 ≤ b.1
    · simp only [hio, hd, if_false, decide_false, decide_true, Bool.not_false, Bool.and_true,
        if_true, true_and, storeBytes, inWord_iff]
      by_cases h3 : memSizeOf b.2.1 = 0b11#2
      -- the fourth size stores no bytes
      · have hbytes : accessBytes 0b11#2 = 0 := rfl
        have hsup : supportedAccess 0b11#2 (byteOffsetOf b.1) = false := rfl
        simp only [h3, or_true, if_true, hbytes, store_zero, hsup, Bool.false_eq_true, if_false]
      · simp only [h3, or_false]
        split <;> rfl
    · simp only [hio, hd, if_false, decide_false, Bool.false_and, false_and, Bool.false_eq_true]

/-- The bytes of `DMEM` after a list of bus writes. -/
theorem foldl_write_dmem (d : Devices) (l : List BusWrite) :
    (l.foldl write d).dmem = l.foldl storeWrite d.dmem := by
  induction l generalizing d with
  | nil => rfl
  | cons b l ih => rw [List.foldl_cons, List.foldl_cons, ih, write_dmem]

/-- A load of `DMEM` is the formatter on its word, with the selectors of the load. -/
theorem load_dmem (switches buttons : Word) {d : Devices} {mem : DataMemory}
    (hd : d.dmem = wordBytes mem) {address : Word} (h : isDmem address = true)
    (memData : BitVec 3) :
    d.load switches buttons address (accessBytes (memSizeOf memData)) (memSignOf memData)
      = formatRead (mem (wordAddress address)) (memSignOf memData) (memSizeOf memData)
          (byteOffsetOf address) := by
  simp only [isDmem, Bool.and_eq_true, decide_eq_true_eq, Bool.not_eq_true',
    decide_eq_false_iff_not] at h
  rw [load, if_neg h.2, if_pos h.1]
  cases hsup : supportedLoad (memSignOf memData) (memSizeOf memData) (byteOffsetOf address) with
  | true =>
      have hcond : (inWord address (accessBytes (memSizeOf memData)) &&
          !(memSignOf memData && accessBytes (memSizeOf memData) == 4)) = true := by
        revert hsup
        unfold inWord
        generalize byteOffsetOf address = off
        generalize memSignOf memData = sign
        generalize memSizeOf memData = size
        revert off sign size
        decide
      rw [if_pos hcond, formatRead_load mem address hsup, loadBytes, hd]
  | false =>
      rw [formatRead_unsupported _ hsup]
      split
      · -- the fourth size reads no bytes
        rename_i hcond
        have hsize : memSizeOf memData = 0b11#2 := by
          revert hsup hcond
          unfold inWord
          generalize byteOffsetOf address = off
          generalize memSignOf memData = sign
          generalize memSizeOf memData = size
          revert off sign size
          decide
        rw [hsize]
        split <;> rfl
      · rfl

end Devices

end Rv32iPipeline
