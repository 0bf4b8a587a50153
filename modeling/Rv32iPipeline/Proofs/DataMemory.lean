import Mathlib.Tactic.IntervalCases
import Rv32iPipeline.Memory.LittleEndian
import Rv32iPipeline.Rtl.Memory

/-!
# `Rv32iPipeline.Proofs.DataMemory`: `DMEM` is a little-endian byte memory

The reference is a memory of 8192 bytes, indexed by the address minus the base `0x3F60`,
modulo 8192. A supported access (a byte at any offset, a half at offsets 0 to 2, a word at
offset 0) stores or loads its bytes. Any other stores nothing and loads zero.

* `wordBytes_write`: the array after a write is the reference after the store.
* `formatRead_load`: the read formatter, on the word read and the load's own size, sign and
  offset, gives the reference value.
* `formatRead_congr_iff`: with other selectors it gives something else for some word.
* `dmem_byte_memory`: any sequence of requests leaves the reference with the stores among them
  applied in order, and a load with its own pins reads its bytes from it.
-/

set_option autoImplicit false

namespace Rv32iPipeline

open LittleEndian

/-- The byte index of an address in `DMEM`. -/
def byteIndex (address : Word) : BitVec 13 := (address - 0x00003f60#32).setWidth 13

/-- The bytes of an access: 1, 2 or 4. -/
def accessBytes (memSize : BitVec 2) : ℕ :=
  match memSize with
  | 0b00#2 => 1
  | 0b01#2 => 2
  | 0b10#2 => 4
  | _ => 0

/-- A byte at any offset, a half at offsets 0 to 2, a word at offset 0. -/
def supportedAccess (memSize byteOffset : BitVec 2) : Bool :=
  match memSize with
  | 0b00#2 => true
  | 0b01#2 => byteOffset != 0b11#2
  | 0b10#2 => byteOffset == 0b00#2
  | _ => false

/-- A store request on the reference memory. -/
def storeBytes (m : Bytes 13) (address : Word) (memData : BitVec 3) (dataIn : Word) : Bytes 13 :=
  if supportedAccess (memSizeOf memData) (byteOffsetOf address) then
    m.store (byteIndex address) (accessBytes (memSizeOf memData)) dataIn
  else m

/-- A load request on the reference memory: the bytes of a supported access, extended from
their width. There is no unsigned word. -/
def loadBytes (m : Bytes 13) (address : Word) (memData : BitVec 3) : Word :=
  let len := accessBytes (memSizeOf memData)
  let v := m.load 32 (byteIndex address) len
  if memSignOf memData then v else (v.setWidth (8 * len)).signExtend 32

/-! ### Addresses -/

/-- The word index of an access. -/
theorem wordOf_byteIndex (address : Word) :
    wordOf (byteIndex address) = wordAddress address := by
  rw [wordOf, byteIndex, wordAddress]
  ext i hi
  simp only [BitVec.getElem_extractLsb', BitVec.getLsbD_setWidth, BitVec.getElem_setWidth,
    BitVec.getLsbD_ushiftRight]
  simp
  omega

/-- The base is a multiple of 4, so the lane of an access is its byte offset. -/
theorem laneOf_byteIndex (address : Word) :
    laneOf (byteIndex address) = (byteOffsetOf address).toNat := by
  rw [laneOf, byteIndex, byteOffsetOf, BitVec.toNat_setWidth, BitVec.toNat_sub,
    BitVec.extractLsb'_toNat]
  have := address.isLt
  simp
  omega

/-- A supported access stays in its word. -/
theorem fits_of_supported {memSize byteOffset : BitVec 2}
    (h : supportedAccess memSize byteOffset = true) :
    byteOffset.toNat + accessBytes memSize ≤ 4 := by
  revert memSize byteOffset
  decide

/-! ### Stores -/

/-- The lanes of a word after a supported write. -/
theorem byteAt_writeLanes (w dataIn : Word) {memSize byteOffset : BitVec 2}
    (h : supportedAccess memSize byteOffset = true) :
    ∀ k < 4, byteAt (writeLanes w dataIn memSize byteOffset) k
      = if byteOffset.toNat ≤ k ∧ k < byteOffset.toNat + accessBytes memSize then
          byteAt dataIn (k - byteOffset.toNat) else byteAt w k := by
  intro k hk
  -- one case for each arm of the write, and then one for each lane
  rcases sel_cases memSize with rfl | rfl | rfl | rfl <;>
    rcases sel_cases byteOffset with rfl | rfl | rfl | rfl <;>
    first
    | exact absurd h (by decide)
    | (interval_cases k <;>
        simp (disch := omega) only [writeLanes, byteAt_append_low, byteAt_append_high,
          byteAt_extractLsb'] <;>
        rfl)

/-- An unsupported write changes nothing. -/
theorem writeLanes_unsupported (w dataIn : Word) {memSize byteOffset : BitVec 2}
    (h : supportedAccess memSize byteOffset = false) :
    writeLanes w dataIn memSize byteOffset = w := by
  rcases sel_cases memSize with rfl | rfl | rfl | rfl <;>
    rcases sel_cases byteOffset with rfl | rfl | rfl | rfl <;>
    first
    | exact absurd h (by decide)
    | rfl

/-- The array after a write is the reference memory after the store. -/
theorem wordBytes_write (mem : DataMemory) (address dataIn : Word) (memData : BitVec 3) :
    wordBytes (Dmem.write mem address dataIn memData)
      = storeBytes (wordBytes mem) address memData dataIn := by
  have hupdate : Dmem.write mem address dataIn memData
      = Function.update mem (wordOf (byteIndex address))
          (writeLanes (mem (wordOf (byteIndex address))) dataIn (memSizeOf memData)
            (byteOffsetOf address)) := by
    funext a
    rw [Dmem.write, wordOf_byteIndex, Function.update_apply]
    split
    · rename_i ha
      rw [ha]
    · rfl
  cases hsup : supportedAccess (memSizeOf memData) (byteOffsetOf address) with
  | false =>
      -- neither side writes
      rw [storeBytes, hsup, hupdate, writeLanes_unsupported _ _ hsup, Function.update_eq_self]
      rfl
  | true =>
      have hfit := fits_of_supported hsup
      have hlanes := byteAt_writeLanes (mem (wordOf (byteIndex address))) dataIn hsup
      rw [← laneOf_byteIndex] at hfit hlanes
      rw [storeBytes, hsup, hupdate]
      exact wordBytes_update mem hfit dataIn _ hlanes

/-- A word written twice is a word written once. -/
theorem writeLanes_twice (w dataIn : Word) (memSize byteOffset : BitVec 2) :
    writeLanes (writeLanes w dataIn memSize byteOffset) dataIn memSize byteOffset
      = writeLanes w dataIn memSize byteOffset := by
  cases hsup : supportedAccess memSize byteOffset with
  | false => rw [writeLanes_unsupported _ _ hsup]
  | true =>
      refine eq_of_byteAt fun k hk => ?_
      rw [byteAt_writeLanes _ _ hsup k hk, byteAt_writeLanes _ _ hsup k hk]
      split <;> rfl

/-- A second edge with the same request changes nothing, when it does not both read and write. -/
theorem Dmem.step_twice (m : Dmem) {we rden : Bool} (h : (we && rden) = false)
    (address dataIn : Word) (memData : BitVec 3) :
    (m.step we rden address dataIn memData).step we rden address dataIn memData
      = m.step we rden address dataIn memData := by
  cases we with
  | false => cases rden <;> rfl
  | true =>
      obtain rfl : rden = false := by simpa using h
      have hwrite : Dmem.write (Dmem.write m.memory address dataIn memData) address dataIn memData
          = Dmem.write m.memory address dataIn memData := by
        funext a
        unfold Dmem.write
        split
        · exact writeLanes_twice ..
        · rfl
      simp only [Dmem.step, if_true, hwrite, Bool.false_eq_true, if_false]

/-! ### Loads -/

/-- A supported load: a supported access, and not an unsigned word. -/
def supportedLoad (memSign : Bool) (memSize byteOffset : BitVec 2) : Bool :=
  supportedAccess memSize byteOffset && !(memSign && memSize == 0b10#2)

/-- The formatter picks the slice of the access out of the word and extends it. -/
theorem formatRead_slice (w : Word) {memSign : Bool} {memSize byteOffset : BitVec 2}
    (h : supportedLoad memSign memSize byteOffset = true) :
    let v := w.extractLsb' (8 * byteOffset.toNat) (8 * accessBytes memSize)
    formatRead w memSign memSize byteOffset
      = if memSign then v.setWidth 32 else v.signExtend 32 := by
  rcases sel_cases memSize with rfl | rfl | rfl | rfl <;>
    rcases sel_cases byteOffset with rfl | rfl | rfl | rfl <;>
    cases memSign <;>
    first
    | exact absurd h (by decide)
    | rfl
    | (show w = (w.extractLsb' 0 32).signExtend 32
       simp)

/-- The formatter on the word read, with the load's own size, sign and offset, gives the
reference value. -/
theorem formatRead_load (mem : DataMemory) (address : Word) {memData : BitVec 3}
    (h : supportedLoad (memSignOf memData) (memSizeOf memData) (byteOffsetOf address) = true) :
    formatRead (mem (wordAddress address)) (memSignOf memData) (memSizeOf memData)
        (byteOffsetOf address)
      = loadBytes (wordBytes mem) address memData := by
  have hfit := fits_of_supported (Bool.and_eq_true .. ▸ h).1
  rw [← laneOf_byteIndex] at hfit
  have hlen : 8 * accessBytes (memSizeOf memData) ≤ 32 := by omega
  rw [formatRead_slice _ h, loadBytes, load_wordBytes mem hfit, wordOf_byteIndex,
    laneOf_byteIndex, BitVec.setWidth_setWidth_of_le _ hlen, BitVec.setWidth_eq]

/-- Any other combination reads as zero. -/
theorem formatRead_unsupported (w : Word) {memSign : Bool} {memSize byteOffset : BitVec 2}
    (h : supportedLoad memSign memSize byteOffset = false) :
    formatRead w memSign memSize byteOffset = 0#32 := by
  rcases sel_cases memSize with rfl | rfl | rfl | rfl <;>
    rcases sel_cases byteOffset with rfl | rfl | rfl | rfl <;>
    cases memSign <;>
    first
    | exact absurd h (by decide)
    | rfl

/-- The selectors of a supported load are the only ones that format every word as they do. The
bytes of `0xF4E3D2C1` tell any two apart. -/
theorem formatRead_congr_iff {memSign memSign' : Bool} {memSize memSize' byteOffset byteOffset' :
    BitVec 2} (h : supportedLoad memSign memSize byteOffset = true) :
    (∀ w, formatRead w memSign' memSize' byteOffset' = formatRead w memSign memSize byteOffset)
      ↔ memSign' = memSign ∧ memSize' = memSize ∧ byteOffset' = byteOffset := by
  constructor
  · intro hall
    -- one word is enough: its four bytes differ, and all have their sign bit set
    have hword := hall 0xF4E3D2C1#32
    clear hall
    revert memSign memSign' memSize memSize' byteOffset byteOffset'
    decide +kernel
  · rintro ⟨rfl, rfl, rfl⟩ w
    rfl

/-! ### Sequences of requests -/

/-- The input pins of `DMEM` in one cycle. -/
structure DmemRequest where
  we : Bool
  rden : Bool
  address : Word
  dataIn : Word
  memData : BitVec 3

/-- `DMEM` after a rising edge with these pins. -/
def Dmem.serve (m : Dmem) (r : DmemRequest) : Dmem :=
  m.step r.we r.rden r.address r.dataIn r.memData

/-- The request on the reference memory. A cycle without `WE` stores nothing. -/
def storeRequest (m : Bytes 13) (r : DmemRequest) : Bytes 13 :=
  if r.we then storeBytes m r.address r.memData r.dataIn else m

/-- The index of byte `k` of an access. -/
theorem byteIndex_add_sub (address : Word) {k : ℕ} (hk : k < 4) :
    (byteIndex (address + BitVec.ofNat 32 k) - byteIndex address).toNat = k := by
  have hmod : (BitVec.ofNat 32 k).toNat = k := by
    rw [BitVec.toNat_ofNat, Nat.mod_eq_of_lt (by omega)]
  have hlt := address.isLt
  simp only [byteIndex, BitVec.toNat_sub, BitVec.toNat_setWidth, BitVec.toNat_add, hmod,
    BitVec.toNat_ofNat]
  omega

/-- No access is longer than a word. -/
theorem accessBytes_le (memSize : BitVec 2) : accessBytes memSize ≤ 4 := by
  revert memSize
  decide

/-- A supported store puts its bytes at the addresses of the access. -/
theorem storeBytes_at (m : Bytes 13) (address : Word) (memData : BitVec 3) (dataIn : Word)
    (h : supportedAccess (memSizeOf memData) (byteOffsetOf address) = true) {k : ℕ}
    (hk : k < accessBytes (memSizeOf memData)) :
    storeBytes m address memData dataIn (byteIndex (address + BitVec.ofNat 32 k))
      = byteAt dataIn k := by
  have hlen := accessBytes_le (memSizeOf memData)
  have hsub := byteIndex_add_sub address (show k < 4 by omega)
  rw [storeBytes, h, if_pos rfl, Bytes.store, hsub, if_pos hk]

/-- No store changes any other byte. -/
theorem storeBytes_frame (m : Bytes 13) (address : Word) (memData : BitVec 3) (dataIn : Word)
    {b : BitVec 13} (h : ∀ k < accessBytes (memSizeOf memData),
      b ≠ byteIndex (address + BitVec.ofNat 32 k)) :
    storeBytes m address memData dataIn b = m b := by
  unfold storeBytes
  split
  · rw [Bytes.store]
    refine if_neg fun hlt => h _ hlt ?_
    -- the distance from the address is the byte of the access
    have hlen := accessBytes_le (memSizeOf memData)
    have hsub := byteIndex_add_sub address (show (b - byteIndex address).toNat < 4 by omega)
    have hcancel := BitVec.eq_of_toNat_eq hsub
    exact (BitVec.sub_left_inj _).mp hcancel.symm
  · rfl

/-- The array after any requests is the reference memory after their stores. -/
theorem wordBytes_serve (m : Dmem) (reqs : List DmemRequest) :
    wordBytes (reqs.foldl Dmem.serve m).memory = reqs.foldl storeRequest (wordBytes m.memory) := by
  induction reqs generalizing m with
  | nil => rfl
  | cons r reqs ih =>
      have hstep : wordBytes (m.serve r).memory = storeRequest (wordBytes m.memory) r := by
        simp only [Dmem.serve, Dmem.step, storeRequest]
        split
        · exact wordBytes_write ..
        · rfl
      rw [List.foldl_cons, List.foldl_cons, ih, hstep]

/-- A load edge and the formatter with the load's own pins: the reference value of a supported
load, and zero for any other. -/
theorem dataOut_step (m : Dmem) (we : Bool) (address dataIn : Word) (memData : BitVec 3) :
    (m.step we true address dataIn memData).dataOut address memData
      = if supportedLoad (memSignOf memData) (memSizeOf memData) (byteOffsetOf address) then
          loadBytes (wordBytes m.memory) address memData
        else 0#32 := by
  show formatRead (m.memory (wordAddress address)) _ _ _ = _
  split
  · rename_i hsup
    exact formatRead_load m.memory address hsup
  · rename_i hsup
    exact formatRead_unsupported _ (Bool.eq_false_iff.mpr hsup)

/-- **`DMEM` is a little-endian byte memory.** After any sequence of requests, the array is the
reference memory with the stores among them applied in order. A supported store changes the bytes
of its access to those of its data, no store changes another byte, and an unsupported store changes
nothing. A load edge at any address, and the formatter with the load's own pins, give the
extended value of the addressed bytes, or zero for an unsupported load. -/
theorem dmem_byte_memory (m : Dmem) (reqs : List DmemRequest) :
    let m' := reqs.foldl Dmem.serve m
    let bytes := reqs.foldl storeRequest (wordBytes m.memory)
    wordBytes m'.memory = bytes ∧
      (∀ ref address memData dataIn,
        (supportedAccess (memSizeOf memData) (byteOffsetOf address) = true →
          ∀ k < accessBytes (memSizeOf memData),
            storeBytes ref address memData dataIn (byteIndex (address + BitVec.ofNat 32 k))
              = byteAt dataIn k) ∧
        (supportedAccess (memSizeOf memData) (byteOffsetOf address) = false →
          storeBytes ref address memData dataIn = ref) ∧
        ∀ b, (∀ k < accessBytes (memSizeOf memData),
            b ≠ byteIndex (address + BitVec.ofNat 32 k)) →
          storeBytes ref address memData dataIn b = ref b) ∧
      ∀ we address memData dataIn,
        (m'.step we true address dataIn memData).dataOut address memData
          = if supportedLoad (memSignOf memData) (memSizeOf memData) (byteOffsetOf address) then
              loadBytes bytes address memData
            else 0#32 := by
  intro m' bytes
  have harray : wordBytes m'.memory = bytes := wordBytes_serve m reqs
  refine ⟨harray, fun ref address memData dataIn =>
    ⟨fun hsup k hk => ?_, fun hsup => ?_, fun b hb => ?_⟩, fun we address memData dataIn => ?_⟩
  · exact storeBytes_at ref address memData dataIn hsup hk
  · simp [storeBytes, hsup]
  · exact storeBytes_frame ref address memData dataIn hb
  · rw [← harray]
    exact dataOut_step m' we address dataIn memData

end Rv32iPipeline
