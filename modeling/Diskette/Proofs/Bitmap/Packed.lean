import Diskette.Bitmap.Packed
import Diskette.Proofs.Bitmap

/-!
# A packed bitmap is a bitmap

The bits of a packed bitmap say which blocks are free, the counter how many, and nothing is set
beyond the last block. Allocating and releasing does to the packed form what it does to the bitmap
and keeps it so.

* `bitAt_set`, `bitAt_clear`: one bit is changed and no other.
* `WellFormed`: the bytes, the padding and the counter agree.
* `WellFormed.alloc_eq`, `WellFormed.allocAt_eq`, `WellFormed.release_eq`: an operation on the packed
  form is the one on the bitmap.
* `WellFormed.byte_storedBlock`: its bytes are what the bitmap is stored as.
* `unpack_freshly`, `unpack_ofBytes`: new and loaded bitmaps.
-/

namespace Diskette.Bitmap.Packed

variable {packed : Packed} {bits : ByteArray} {block blocks : Nat}

/-! ## Single bits -/

theorem testBit_mask (block i : Nat) :
    (mask block).toNat.testBit i = decide (7 - block % 8 = i) := by
  have hmask : ∀ r : Fin 8, (0x80 >>> UInt8.ofNat r : UInt8).toNat = 2 ^ (7 - r.val) := by decide
  have h := hmask ⟨block % 8, Nat.mod_lt _ (by decide)⟩
  rw [mask, h, Nat.testBit_two_pow]

theorem testBit_not_mask (block : Nat) {i : Nat} (hi : i < 8) :
    (~~~mask block).toNat.testBit i = decide (7 - block % 8 ≠ i) := by
  have hmask : ∀ r i : Fin 8, (~~~(0x80 >>> UInt8.ofNat r : UInt8)).toNat.testBit i =
      decide (7 - r.val ≠ i.val) := by decide
  exact hmask ⟨block % 8, Nat.mod_lt _ (by decide)⟩ ⟨i, hi⟩

theorem testBit_headMask (blocks : Nat) {i : Nat} (hi : i < 8) :
    (headMask blocks).toNat.testBit (7 - i) = decide (i < blocks % 8) := by
  have hmask : ∀ r i : Fin 8, (~~~(0xFF >>> UInt8.ofNat r : UInt8)).toNat.testBit (7 - i) =
      decide (i.val < r.val) := by decide
  exact hmask ⟨blocks % 8, Nat.mod_lt _ (by decide)⟩ ⟨i, hi⟩

/-- Two bytes are equal if their bits are. -/
theorem eq_of_testBit {a b : UInt8}
    (h : ∀ i, i < 8 → a.toNat.testBit (7 - i) = b.toNat.testBit (7 - i)) : a = b := by
  rw [← UInt8.toNat_inj]
  refine Nat.eq_of_testBit_eq fun i => ?_
  by_cases hi : i < 8
  · have := h (7 - i) (by omega)
    rwa [show 7 - (7 - i) = i by omega] at this
  · have hpow : 2 ^ 8 ≤ 2 ^ i := Nat.pow_le_pow_right (by decide) (by omega)
    rw [Nat.testBit_lt_two_pow (Nat.lt_of_lt_of_le a.toNat_lt hpow),
      Nat.testBit_lt_two_pow (Nat.lt_of_lt_of_le b.toNat_lt hpow)]

/-- A byte is zero if none of its bits is set. -/
theorem eq_zero_iff {byte : UInt8} :
    byte = 0 ↔ ∀ i, i < 8 → byte.toNat.testBit (7 - i) = false := by
  constructor
  · rintro rfl i _
    exact Nat.zero_testBit _
  · intro h
    refine eq_of_testBit fun i hi => ?_
    rw [h i hi, UInt8.toNat_zero, Nat.zero_testBit]

private theorem byteAt_eq_getD (bits : ByteArray) (i : Nat) :
    byteAt bits i = (bits.data[i]?).getD 0 := by
  unfold byteAt
  split
  · next h =>
    have h : i < bits.data.size := h
    rw [Array.getElem?_eq_getElem h]
    rfl
  · next h =>
    have h : ¬ i < bits.data.size := h
    rw [Array.getElem?_eq_none (Nat.not_lt.mp h)]
    rfl

theorem byteAt_set! {i : Nat} (hi : i < bits.size) (value : UInt8) (k : Nat) :
    byteAt (bits.set! i value) k = if k = i then value else byteAt bits k := by
  have hi : i < bits.data.size := hi
  have hset : (bits.set! i value).data = bits.data.setIfInBounds i value := rfl
  rw [byteAt_eq_getD, byteAt_eq_getD, hset, Array.getElem?_setIfInBounds]
  by_cases hk : k = i
  · rw [if_pos hk.symm, if_pos hi, if_pos hk]
    rfl
  · rw [if_neg (Ne.symm hk), if_neg hk]

/-- The test of a bit through its mask. -/
theorem and_mask_ne_zero_iff :
    byteAt bits (block / 8) &&& mask block ≠ 0 ↔ bitAt bits block = true := by
  rw [ne_eq, eq_zero_iff, bitAt]
  simp only [UInt8.toNat_and, Nat.testBit_and, testBit_mask]
  constructor
  · intro h
    by_contra hbit
    refine h fun i hi => ?_
    by_cases he : 7 - block % 8 = 7 - i
    · rw [← he, Bool.eq_false_of_not_eq_true hbit, Bool.false_and]
    · rw [decide_eq_false he, Bool.and_false]
  · intro hbit h
    have := h (block % 8) (Nat.mod_lt _ (by decide))
    rw [hbit, decide_eq_true rfl] at this
    cases this

theorem isFree_eq (packed : Packed) (block : Nat) :
    packed.isFree block = (decide (block < packed.blocks) && bitAt packed.bits block) := by
  have : decide (byteAt packed.bits (block / 8) &&& mask block ≠ 0) = bitAt packed.bits block := by
    rw [Bool.eq_iff_iff, decide_eq_true_iff, and_mask_ne_zero_iff]
  rw [isFree, this]

@[simp] theorem size_set : (set bits block).size = bits.size := ByteArray.size_set! ..

@[simp] theorem size_clear : (clear bits block).size = bits.size := ByteArray.size_set! ..

private theorem bitAt_set! (h : block / 8 < bits.size) (value : UInt8) (other : Nat) :
    bitAt (bits.set! (block / 8) value) other =
      if other / 8 = block / 8 then value.toNat.testBit (7 - other % 8) else bitAt bits other := by
  unfold bitAt
  rw [byteAt_set! h]
  split <;> rfl

theorem bitAt_set (h : block / 8 < bits.size) (other : Nat) :
    bitAt (set bits block) other = (bitAt bits other || decide (other = block)) := by
  rw [set, bitAt_set! h]
  split
  · next he =>
    rw [UInt8.toNat_or, Nat.testBit_or, testBit_mask, bitAt, he]
    congr 2
    exact propext ⟨fun _ => by omega, fun _ => by omega⟩
  · next he =>
    have hne : other ≠ block := fun h => he (congrArg (· / 8) h)
    rw [decide_eq_false hne, Bool.or_false]

theorem bitAt_clear (h : block / 8 < bits.size) (other : Nat) :
    bitAt (clear bits block) other = (bitAt bits other && decide (other ≠ block)) := by
  rw [clear, bitAt_set! h]
  split
  · next he =>
    rw [UInt8.toNat_and, Nat.testBit_and, testBit_not_mask _ (by omega), bitAt, he]
    congr 2
    exact propext ⟨fun _ => by omega, fun _ => by omega⟩
  · next he =>
    have hne : other ≠ block := fun h => he (congrArg (· / 8) h)
    rw [decide_eq_true hne, Bool.and_true]

/-- The first bit of a byte that is set. -/
theorem leadingZeros_of_ne_zero {byte : UInt8} (h : byte ≠ 0) :
    leadingZeros byte < 8 ∧ byte.toNat.testBit (7 - leadingZeros byte) = true ∧
      ∀ i, i < leadingZeros byte → byte.toNat.testBit (7 - i) = false := by
  unfold leadingZeros
  cases hf : (List.range 8).find? fun i => byte.toNat.testBit (7 - i) with
  | none =>
    refine absurd (eq_zero_iff.mpr fun i hi => ?_) h
    simpa using List.find?_eq_none.mp hf i (List.mem_range.mpr hi)
  | some i =>
    obtain ⟨hset, hi, hbefore⟩ := List.find?_range_eq_some.mp hf
    exact ⟨List.mem_range.mp hi, hset, fun j hj => by simpa using hbefore j hj⟩

/-! ## The bitmap that is packed -/

/-- The bitmap whose packed form this is. -/
def unpack (packed : Packed) : Bitmap :=
  ⟨(Array.range packed.blocks).map (bitAt packed.bits), packed.cursor⟩

/-- The bytes, the padding and the counter of a packed bitmap agree. -/
structure WellFormed (packed : Packed) : Prop where
  size_eq : packed.bits.size = storedBlocks packed.blocks * 512
  bitAt_of_le {block : Nat} (h : packed.blocks ≤ block) : bitAt packed.bits block = false
  free_eq : packed.free = packed.unpack.freeBlocks
  cursor_le : packed.cursor ≤ packed.bits.size

@[simp] theorem blocks_unpack (packed : Packed) : packed.unpack.blocks = packed.blocks := by
  simp [unpack, Bitmap.blocks]

theorem isFree_unpack (packed : Packed) (block : Nat) :
    packed.unpack.isFree block = packed.isFree block := by
  rw [isFree_eq, Bitmap.isFree, unpack]
  by_cases h : block < packed.blocks <;> simp [h]

/-- Every block of the volume has a bit in one of the bytes. -/
theorem blocks_le_storedBlocks (blocks : Nat) : blocks ≤ storedBlocks blocks * 512 * 8 := by
  unfold storedBlocks bitsPerBlock
  omega

theorem WellFormed.getD_bits (h : packed.WellFormed) (block : Nat) :
    (packed.unpack.bits[block]?).getD false = bitAt packed.bits block := by
  by_cases hb : block < packed.blocks
  · simp [unpack, hb]
  · simp [unpack, hb, h.bitAt_of_le (Nat.not_lt.mp hb)]

theorem WellFormed.isFree_eq (h : packed.WellFormed) (block : Nat) :
    packed.isFree block = bitAt packed.bits block := by
  rw [← isFree_unpack, Bitmap.isFree, h.getD_bits]

theorem WellFormed.lt_of_bitAt (h : packed.WellFormed) (hb : bitAt packed.bits block = true) :
    block < packed.blocks := by
  by_contra hlt
  rw [h.bitAt_of_le (Nat.not_lt.mp hlt)] at hb
  cases hb

theorem WellFormed.byte_lt (h : packed.WellFormed) (hb : block < packed.blocks) :
    block / 8 < packed.bits.size := by
  have := blocks_le_storedBlocks packed.blocks
  rw [h.size_eq]
  omega

/-! ## The search -/

theorem bitAt_of_byteAt_eq_zero (h : byteAt bits (block / 8) = 0) : bitAt bits block = false := by
  rw [bitAt, h]
  exact Nat.zero_testBit _

/-- The search byte by byte finds what the search block by block finds. -/
theorem map_nonzero? {array : Array Bool} (i count count' : Nat)
    (harray : ∀ block, (array[block]?).getD false = bitAt bits block)
    (hend : ∀ block, bitAt bits block = true →
      (block < (i + count) * 8 ↔ block < i * 8 + count')) :
    (nonzero? bits count i).map (fun byte => byte * 8 + leadingZeros (byteAt bits byte)) =
      firstFree? array count' (i * 8) := by
  -- The ranges may end inside a byte, so `hend` says that no bit is set between their ends.
  cases hscan : nonzero? bits count i with
  | none =>
    rw [Option.map_none, eq_comm, firstFree?_eq_none_iff]
    intro block hlo hhi
    rw [harray]
    by_contra hbit
    rw [Bool.not_eq_false] at hbit
    have hlt := (hend block hbit).mpr hhi
    rw [bitAt_of_byteAt_eq_zero
      (nonzero?_eq_none_iff.mp hscan (block / 8) (by omega) (by omega))] at hbit
    cases hbit
  | some byte =>
    obtain ⟨hlo, hhi, hne, hbefore⟩ := nonzero?_eq_some_iff.mp hscan
    obtain ⟨hzeros, hset, hclear⟩ := leadingZeros_of_ne_zero hne
    have hdiv : (byte * 8 + leadingZeros (byteAt bits byte)) / 8 = byte := by omega
    have hmod : (byte * 8 + leadingZeros (byteAt bits byte)) % 8 =
        leadingZeros (byteAt bits byte) := by omega
    have hbit : bitAt bits (byte * 8 + leadingZeros (byteAt bits byte)) = true := by
      rw [bitAt, hdiv, hmod, hset]
    rw [Option.map_some, eq_comm, firstFree?_eq_some_iff]
    refine ⟨by omega, (hend _ hbit).mp (by omega), (harray _).trans hbit, fun block h1 h2 => ?_⟩
    rw [harray]
    by_cases hsame : block / 8 = byte
    · rw [bitAt, hsame]
      exact hclear _ (by omega)
    · exact bitAt_of_byteAt_eq_zero (hbefore _ (by omega) (by omega))

theorem WellFormed.scan_eq (h : packed.WellFormed) :
    (nonzero? packed.bits (packed.bits.size - packed.cursor) packed.cursor <|>
        nonzero? packed.bits packed.cursor 0).map
      (fun byte => byte * 8 + leadingZeros (byteAt packed.bits byte)) = packed.unpack.next? := by
  have hsize : packed.unpack.bits.size = packed.blocks := by simp [unpack]
  have hcursor : packed.unpack.cursor = packed.cursor := rfl
  have htail := map_nonzero? packed.cursor (packed.bits.size - packed.cursor)
    (packed.blocks - packed.cursor * 8) h.getD_bits fun block hb => by
      have := h.lt_of_bitAt hb
      have := h.byte_lt this
      have := h.cursor_le
      omega
  have hfront := map_nonzero? 0 packed.cursor (packed.cursor * 8) h.getD_bits
    fun block _ => by omega
  rw [Nat.zero_mul] at hfront
  rw [next?, hsize, hcursor, ← htail, ← hfront]
  cases nonzero? packed.bits (packed.bits.size - packed.cursor) packed.cursor <;> rfl

/-! ## Operations -/

/-- A change of one bit of a packed bitmap is a change of one block of the bitmap. -/
theorem map_bitAt_eq {bits' : ByteArray} {value : Bool}
    (hbits : ∀ other, bitAt bits' other = if other = block then value else bitAt bits other) :
    (Array.range blocks).map (bitAt bits') =
      ((Array.range blocks).map (bitAt bits)).setIfInBounds block value := by
  refine Array.ext (by simp) fun i h1 h2 => ?_
  rw [Array.getElem_map, Array.getElem_range, hbits, Array.getElem_setIfInBounds (by simpa using h1)]
  simp [eq_comm]

theorem WellFormed.bitAt_clear_eq (h : packed.WellFormed) (hb : block < packed.blocks)
    (other : Nat) : bitAt (clear packed.bits block) other =
      if other = block then false else bitAt packed.bits other := by
  rw [bitAt_clear (h.byte_lt hb)]
  split <;> simp_all

theorem WellFormed.bitAt_set_eq (h : packed.WellFormed) (hb : block < packed.blocks)
    (other : Nat) : bitAt (set packed.bits block) other =
      if other = block then true else bitAt packed.bits other := by
  rw [bitAt_set (h.byte_lt hb)]
  split <;> simp_all

/-- Taking a free block out of a packed bitmap. -/
theorem WellFormed.take (h : packed.WellFormed) {after : Bitmap} {cursor : Nat}
    (hfree : packed.isFree block = true) (hcursor : cursor ≤ packed.bits.size)
    (hafter : after = ⟨packed.unpack.bits.setIfInBounds block false, cursor⟩)
    (htook : packed.unpack.Took [block] after) :
    unpack ⟨clear packed.bits block, packed.blocks, packed.free - 1, cursor⟩ = after ∧
      WellFormed ⟨clear packed.bits block, packed.blocks, packed.free - 1, cursor⟩ := by
  have hb : block < packed.blocks := h.lt_of_bitAt ((h.isFree_eq block).symm.trans hfree)
  have hunpack :
      unpack ⟨clear packed.bits block, packed.blocks, packed.free - 1, cursor⟩ = after := by
    rw [hafter, unpack, map_bitAt_eq (h.bitAt_clear_eq hb)]
    rfl
  refine ⟨hunpack, size_clear.trans h.size_eq, fun {other} hother => ?_, ?_, ?_⟩
  · have hother : packed.blocks ≤ other := hother
    rw [h.bitAt_clear_eq hb, if_neg (by omega), h.bitAt_of_le hother]
  · have hcount := htook.freeBlocks_add
    rw [List.length_singleton] at hcount
    rw [hunpack]
    change packed.free - 1 = _
    rw [h.free_eq]
    omega
  · exact hcursor.trans_eq size_clear.symm

/-- Allocating the next free block. -/
theorem WellFormed.alloc_eq (h : packed.WellFormed) :
    packed.alloc.1 = packed.unpack.alloc.1 ∧ packed.alloc.2.unpack = packed.unpack.alloc.2 ∧
      packed.alloc.2.WellFormed := by
  have hscan := h.scan_eq
  unfold alloc Bitmap.alloc
  cases hbyte : (nonzero? packed.bits (packed.bits.size - packed.cursor) packed.cursor <|>
      nonzero? packed.bits packed.cursor 0) with
  | none =>
    rw [hbyte, Option.map_none] at hscan
    rw [← hscan]
    exact ⟨rfl, rfl, h⟩
  | some byte =>
    rw [hbyte, Option.map_some] at hscan
    have hfree := isFree_of_next? hscan.symm
    -- The byte that is found has a bit set, whichever half of the search found it.
    have hne : byteAt packed.bits byte ≠ 0 := by
      rw [Option.orElse_eq_orElse, Option.orElse_eq_or, Option.or_eq_some_iff] at hbyte
      rcases hbyte with hbyte | ⟨-, hbyte⟩
      · exact (nonzero?_eq_some_iff.mp hbyte).2.2.1
      · exact (nonzero?_eq_some_iff.mp hbyte).2.2.1
    have hzeros := (leadingZeros_of_ne_zero hne).1
    generalize hblock : byte * 8 + leadingZeros (byteAt packed.bits byte) = block at hscan hfree
    have hdiv : block / 8 = byte := by omega
    have htook : packed.unpack.Took [block]
        ⟨packed.unpack.bits.setIfInBounds block false, byte⟩ := by
      refine took_alloc ?_
      rw [Bitmap.alloc, ← hscan]
      simp only [hdiv]
    rw [isFree_unpack] at hfree
    have hb : block < packed.blocks := h.lt_of_bitAt ((h.isFree_eq block).symm.trans hfree)
    obtain ⟨hunpack, hwf⟩ := h.take hfree (hdiv ▸ Nat.le_of_lt (h.byte_lt hb)) rfl htook
    rw [← hscan]
    simp only [hblock, hdiv]
    exact ⟨trivial, hunpack, hwf⟩

/-- Allocating a certain block. -/
theorem WellFormed.allocAt_eq (h : packed.WellFormed) (block : Nat) :
    (packed.allocAt block).1 = (packed.unpack.allocAt block).1 ∧
      (packed.allocAt block).2.unpack = (packed.unpack.allocAt block).2 ∧
      (packed.allocAt block).2.WellFormed := by
  unfold allocAt Bitmap.allocAt
  rw [isFree_unpack]
  cases hfree : packed.isFree block with
  | false => exact ⟨rfl, rfl, h⟩
  | true =>
    have htook : packed.unpack.Took [block] (packed.unpack.allocAt block).2 :=
      took_allocAt ((isFree_unpack ..).trans hfree)
    rw [Bitmap.allocAt, isFree_unpack, hfree] at htook
    exact ⟨rfl, h.take hfree h.cursor_le rfl htook⟩

/-- Releasing a block. -/
theorem WellFormed.release_eq (h : packed.WellFormed) (block : Nat) :
    (packed.release block).unpack = packed.unpack.release block ∧
      (packed.release block).WellFormed := by
  unfold release
  by_cases hskip : packed.blocks ≤ block ∨ packed.isFree block = true
  · rw [if_pos hskip]
    refine ⟨?_, h⟩
    rw [Bitmap.release_eq_self]
    rw [isFree_unpack, blocks_unpack]
    exact hskip
  · rw [if_neg hskip]
    obtain ⟨hle, hused⟩ := not_or.mp hskip
    have hb : block < packed.blocks := Nat.not_le.mp hle
    rw [Bool.not_eq_true] at hused
    have hunpack : unpack ⟨set packed.bits block, packed.blocks, packed.free + 1, packed.cursor⟩ =
        packed.unpack.release block := by
      rw [unpack, map_bitAt_eq (h.bitAt_set_eq hb)]
      rfl
    refine ⟨hunpack, size_set.trans h.size_eq, fun {other} hother => ?_, ?_,
      h.cursor_le.trans_eq size_set.symm⟩
    · have hother : packed.blocks ≤ other := hother
      rw [h.bitAt_set_eq hb, if_neg (by omega), h.bitAt_of_le hother]
    · have hcount := (took_release ((blocks_unpack packed).symm ▸ hb)
        ((isFree_unpack packed block).trans hused)).freeBlocks_add
      rw [List.length_singleton] at hcount
      rw [hunpack, ← hcount]
      change packed.free + 1 = _
      rw [h.free_eq]

/-! ## The stored bitmap -/

theorem testBit_appendBits (bits : Array Bool) (count block acc i : Nat) :
    (appendBits bits count block acc).testBit i =
      if i < count then (bits[block + (count - 1 - i)]?).getD false
      else acc.testBit (i - count) := by
  induction count generalizing block acc with
  | zero => rw [appendBits, if_neg (Nat.not_lt_zero i), Nat.sub_zero]
  | succ count ih =>
    rw [appendBits, ih]
    rcases Nat.lt_trichotomy i count with hi | rfl | hi
    · rw [if_pos hi, if_pos (by omega), show block + 1 + (count - 1 - i) =
        block + (count + 1 - 1 - i) by omega]
    · rw [if_neg (Nat.lt_irrefl i), if_pos (Nat.lt_succ_self i), Nat.sub_self,
        show block + (i + 1 - 1 - i) = block by omega]
      cases (bits[block]?).getD false <;> simp
    · have hhalf : (2 * acc + ((bits[block]?).getD false).toNat) / 2 = acc := by
        have := Bool.toNat_lt ((bits[block]?).getD false)
        omega
      rw [if_neg (by omega), if_neg (by omega), show i - count = i - (count + 1) + 1 by omega,
        Nat.testBit_succ, hhalf]

/-- The bits of a stored bitmap block, from the top one on. -/
theorem testBit_storedBlock (bitmap : Bitmap) (i : Nat) {j k : Nat} (hj : j < 512) (hk : k < 8) :
    ((bitmap.storedBlock i).byte j).toNat.testBit (7 - k) =
      bitmap.isFree ((i * 512 + j) * 8 + k) := by
  have hblock : i * bitsPerBlock + j * 8 + (8 - 1 - (7 - k)) = (i * 512 + j) * 8 + k := by
    unfold bitsPerBlock
    omega
  rw [storedBlock, Bytes.byte_tabulate, if_pos hj, UInt8.toNat_ofNat', Nat.testBit_mod_two_pow,
    decide_eq_true (by omega), Bool.true_and, testBit_appendBits, if_pos (by omega), hblock]
  rfl

/-- What is stored on the disk are the bytes of the packed form. -/
theorem WellFormed.byte_storedBlock (h : packed.WellFormed) (i : Nat) {j : Nat} (hj : j < 512) :
    (packed.unpack.storedBlock i).byte j = byteAt packed.bits (i * 512 + j) := by
  refine eq_of_testBit fun k hk => ?_
  rw [testBit_storedBlock _ _ hj hk, isFree_unpack, h.isFree_eq, bitAt,
    show ((i * 512 + j) * 8 + k) / 8 = i * 512 + j by omega,
    show ((i * 512 + j) * 8 + k) % 8 = k by omega]

/-! ## New and loaded bitmaps -/

theorem ones_eq (bits : ByteArray) (i : Nat) :
    ones (byteAt bits i) = ((List.range 8).map (i * 8 + ·)).countP (bitAt bits) := by
  rw [List.countP_map, ones]
  refine List.countP_congr fun k hk => ?_
  have hk := List.mem_range.mp hk
  rw [Function.comp_apply, bitAt, show (i * 8 + k) / 8 = i by omega,
    show (i * 8 + k) % 8 = k by omega]

theorem foldl_ones (bits : ByteArray) (n : Nat) :
    (List.range n).foldl (fun count i => count + ones (byteAt bits i)) 0 =
      (List.range (n * 8)).countP (bitAt bits) := by
  induction n with
  | zero => rfl
  | succ n ih =>
    rw [List.range_succ, List.foldl_append, ih, List.foldl_cons, List.foldl_nil, ones_eq,
      Nat.add_mul, Nat.one_mul, List.range_add, List.countP_append]

/-- Bits beyond the last block are not set, so they do not count. -/
theorem countP_range_eq {n : Nat} (hle : blocks ≤ n)
    (hzero : ∀ block, blocks ≤ block → bitAt bits block = false) :
    (List.range n).countP (bitAt bits) = (List.range blocks).countP (bitAt bits) := by
  obtain ⟨extra, rfl⟩ := Nat.exists_eq_add_of_le hle
  rw [List.range_add, List.countP_append, Nat.add_eq_left, List.countP_eq_zero]
  intro block hb
  obtain ⟨k, -, rfl⟩ := List.mem_map.mp hb
  rw [hzero _ (Nat.le_add_right ..)]
  exact Bool.false_ne_true

theorem freeBlocks_unpack (packed : Packed) :
    packed.unpack.freeBlocks = (List.range packed.blocks).countP (bitAt packed.bits) := by
  simp [unpack, freeBlocks, Array.count, ← Array.countP_toList, Function.comp_def]

theorem bitAt_tabulate (n : Nat) (f : Nat → UInt8) (hb : block / 8 < n) :
    bitAt (tabulate n f) block = (f (block / 8)).toNat.testBit (7 - block % 8) := by
  rw [bitAt, byteAt_tabulate, if_pos hb]

theorem bitAt_of_size_le (h : bits.size ≤ block / 8) : bitAt bits block = false :=
  bitAt_of_byteAt_eq_zero (byteAt_of_size_le h)

private theorem testBit_headMask_mod (block : Nat) :
    (headMask blocks).toNat.testBit (7 - block % 8) = decide (block % 8 < blocks % 8) :=
  testBit_headMask blocks (Nat.mod_lt _ (by decide))

theorem bitAt_clearPadding (blocks : Nat) (bits : ByteArray) (block : Nat) :
    bitAt (clearPadding blocks bits) block = (decide (block < blocks) && bitAt bits block) := by
  by_cases hin : block / 8 < bits.size
  · rw [clearPadding, bitAt_tabulate _ _ hin]
    by_cases h1 : block / 8 < blocks / 8
    · rw [if_pos h1, decide_eq_true (by omega), Bool.true_and, bitAt]
    · by_cases h2 : block / 8 = blocks / 8
      · rw [if_neg h1, if_pos h2, UInt8.toNat_and, Nat.testBit_and, testBit_headMask_mod, bitAt,
          Bool.and_comm]
        congr 2
        exact propext ⟨fun _ => by omega, fun _ => by omega⟩
      · rw [if_neg h1, if_neg h2, UInt8.toNat_zero, Nat.zero_testBit, decide_eq_false (by omega),
          Bool.false_and]
  · rw [bitAt_of_size_le (by rw [clearPadding, size_tabulate]; omega), bitAt_of_size_le (by omega),
      Bool.and_false]

theorem bitAt_clearPadding_of_le (bits : ByteArray) (h : blocks ≤ block) :
    bitAt (clearPadding blocks bits) block = false := by
  rw [bitAt_clearPadding, decide_eq_false (Nat.not_lt.mpr h), Bool.false_and]

theorem map_bitAt_clearPadding (blocks : Nat) (bits : ByteArray) :
    (Array.range blocks).map (bitAt (clearPadding blocks bits)) =
      (Array.range blocks).map (bitAt bits) := by
  refine Array.map_congr_left fun block hb => ?_
  rw [bitAt_clearPadding, decide_eq_true (Array.mem_range.mp hb), Bool.true_and]

theorem getD_map_bitAt (bits : ByteArray) (block : Nat) :
    (((Array.range blocks).map (bitAt bits))[block]?).getD false =
      bitAt (clearPadding blocks bits) block := by
  rw [bitAt_clearPadding]
  by_cases hb : block < blocks <;> simp [hb]

/-- What is loaded is the packed form of the bitmap that the bytes store. -/
theorem unpack_ofBytes {bytes : ByteArray} (hle : blocks ≤ bytes.size * 8) :
    (ofBytes blocks bytes).unpack = Bitmap.ofBytes blocks bytes := by
  have hscan := map_nonzero? 0 (clearPadding blocks bytes).size blocks (getD_map_bitAt bytes)
    fun block hb => by
      have hlt : block < blocks := by
        by_contra hlt
        rw [bitAt_clearPadding_of_le bytes (Nat.not_lt.mp hlt)] at hb
        cases hb
      have hsize : (clearPadding blocks bytes).size = bytes.size := size_tabulate ..
      omega
  rw [Nat.zero_mul] at hscan
  have hcursor : (nonzero? (clearPadding blocks bytes) (clearPadding blocks bytes).size 0).getD 0 =
      ((firstFree? ((Array.range blocks).map (bitAt bytes)) blocks 0).getD 0) / 8 := by
    rw [← hscan]
    cases hbyte : nonzero? (clearPadding blocks bytes) (clearPadding blocks bytes).size 0 with
    | none => simp
    | some byte =>
      have := (leadingZeros_of_ne_zero (nonzero?_eq_some_iff.mp hbyte).2.2.1).1
      simp only [Option.map_some, Option.getD_some]
      omega
  simp only [unpack, ofBytes, Bitmap.ofBytes, map_bitAt_clearPadding, hcursor]

theorem wellFormed_ofBytes {bytes : ByteArray} (hsize : bytes.size = storedBlocks blocks * 512) :
    (ofBytes blocks bytes).WellFormed where
  size_eq := (size_tabulate ..).trans hsize
  bitAt_of_le h := bitAt_clearPadding_of_le bytes h
  free_eq := by
    have hle : blocks ≤ (clearPadding blocks bytes).size * 8 := by
      rw [clearPadding, size_tabulate, hsize]
      exact blocks_le_storedBlocks blocks
    rw [freeBlocks_unpack]
    change countOnes (clearPadding blocks bytes) =
      (List.range blocks).countP (bitAt (clearPadding blocks bytes))
    rw [countOnes, foldl_ones, countP_range_eq hle fun block h => bitAt_clearPadding_of_le bytes h]
  cursor_le := by
    change (nonzero? (clearPadding blocks bytes) (clearPadding blocks bytes).size 0).getD 0 ≤
      (clearPadding blocks bytes).size
    cases hbyte : nonzero? (clearPadding blocks bytes) (clearPadding blocks bytes).size 0 with
    | none => exact Nat.zero_le _
    | some byte =>
      have := (nonzero?_eq_some_iff.mp hbyte).2.1
      simp only [Option.getD_some]
      omega

theorem bitAt_freshly (blocks block : Nat) :
    bitAt (freshly blocks).bits block = decide (block < blocks) := by
  have hle := blocks_le_storedBlocks blocks
  by_cases hin : block / 8 < storedBlocks blocks * 512
  · rw [freshly, bitAt_tabulate _ _ hin]
    by_cases h1 : block / 8 < blocks / 8
    · have hones : ∀ i : Fin 8, (0xFF : UInt8).toNat.testBit (7 - i) = true := by decide
      rw [if_pos h1, decide_eq_true (by omega)]
      exact hones ⟨block % 8, Nat.mod_lt _ (by decide)⟩
    · by_cases h2 : block / 8 = blocks / 8
      · rw [if_neg h1, if_pos h2, testBit_headMask_mod]
        congr 1
        exact propext ⟨fun _ => by omega, fun _ => by omega⟩
      · rw [if_neg h1, if_neg h2, UInt8.toNat_zero, Nat.zero_testBit, decide_eq_false (by omega)]
  · rw [bitAt_of_size_le (by rw [freshly, size_tabulate]; omega), decide_eq_false (by omega)]

/-- A new packed bitmap is the packed form of a new bitmap. -/
theorem unpack_freshly (blocks : Nat) : (freshly blocks).unpack = Bitmap.freshly blocks := by
  have hmap : (Array.range blocks).map (bitAt (freshly blocks).bits) =
      Array.replicate blocks true := by
    refine Array.ext (by simp) fun i h1 _ => ?_
    have hi : i < blocks := by simpa using h1
    rw [Array.getElem_map, Array.getElem_range, bitAt_freshly, decide_eq_true hi,
      Array.getElem_replicate]
  exact congrArg (Bitmap.mk · 0) hmap

theorem wellFormed_freshly (blocks : Nat) : (freshly blocks).WellFormed where
  size_eq := size_tabulate ..
  bitAt_of_le {block} h := by
    have h : blocks ≤ block := h
    rw [bitAt_freshly, decide_eq_false (Nat.not_lt.mpr h)]
  free_eq := by
    rw [unpack_freshly]
    simp [freshly, Bitmap.freshly, freeBlocks]
  cursor_le := Nat.zero_le _

end Diskette.Bitmap.Packed
