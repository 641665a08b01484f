import Diskette.Bitmap

/-!
# Packed bitmaps

A bitmap in the form in which it is kept: eight blocks in a byte, the first of them in the top bit,
as many bytes as the bitmap blocks of the volume have, and zeros in what no block of the volume
needs. The number of free blocks is counted along, and the search for the next free block goes byte
by byte.

* `nonzero?_eq_none_iff`, `nonzero?_eq_some_iff`: the search finds the first byte that is not zero.
-/

namespace Diskette.Bitmap

/-- A bitmap as it is kept. -/
structure Packed where
  /-- A bit for each block, set if the block is free. -/
  bits : ByteArray
  blocks : Nat
  /-- The number of free blocks. -/
  free : Nat
  /-- The byte from which on the next free block is looked for. -/
  cursor : Nat

namespace Packed

/-- The bit of a block in its byte. -/
def mask (block : Nat) : UInt8 := 0x80 >>> UInt8.ofNat (block % 8)

/-- The bits of the byte of block number `blocks` that belong to the blocks below that one. -/
def headMask (blocks : Nat) : UInt8 := ~~~(0xFF >>> UInt8.ofNat (blocks % 8))

/-- A bitmap of `blocks` free blocks. -/
def freshly (blocks : Nat) : Packed where
  bits := tabulate (storedBlocks blocks * 512) fun i =>
    if i < blocks / 8 then 0xFF else if i = blocks / 8 then headMask blocks else 0
  blocks := blocks
  free := blocks
  cursor := 0

/-- Whether the volume has the block and it is free. -/
def isFree (packed : Packed) (block : Nat) : Bool :=
  block < packed.blocks && byteAt packed.bits (block / 8) &&& mask block ≠ 0

/-- Sets the bit of a block. -/
def set (bits : ByteArray) (block : Nat) : ByteArray :=
  bits.set! (block / 8) (byteAt bits (block / 8) ||| mask block)

/-- Clears the bit of a block. -/
def clear (bits : ByteArray) (block : Nat) : ByteArray :=
  bits.set! (block / 8) (byteAt bits (block / 8) &&& ~~~mask block)

/-! ## Allocating -/

/-- The first one of the `count` bytes from byte `i` on that is not zero. -/
def nonzero? (bits : ByteArray) : (count i : Nat) → Option Nat
  | 0, _ => none
  | count + 1, i => if byteAt bits i ≠ 0 then some i else nonzero? bits count (i + 1)

/-- The number of zeros before the first bit of a byte that is set. -/
def leadingZeros (byte : UInt8) : Nat :=
  ((List.range 8).find? fun i => byte.toNat.testBit (7 - i)).getD 8

/-- Allocates the next free block. -/
def alloc (packed : Packed) : Option Nat × Packed :=
  match nonzero? packed.bits (packed.bits.size - packed.cursor) packed.cursor <|>
      nonzero? packed.bits packed.cursor 0 with
  | none => (none, packed)
  | some byte =>
    let block := byte * 8 + leadingZeros (byteAt packed.bits byte)
    (some block, ⟨clear packed.bits block, packed.blocks, packed.free - 1, byte⟩)

/-- Allocates a certain block and tells whether it was free. -/
def allocAt (block : Nat) (packed : Packed) : Bool × Packed :=
  if packed.isFree block then
    (true, ⟨clear packed.bits block, packed.blocks, packed.free - 1, packed.cursor⟩)
  else (false, packed)

/-- Makes a block free; nothing happens to a free block and to one that the volume does not have. -/
def release (block : Nat) (packed : Packed) : Packed :=
  if packed.blocks ≤ block ∨ packed.isFree block then packed
  else ⟨set packed.bits block, packed.blocks, packed.free + 1, packed.cursor⟩

/-! ## Loading and storing -/

/-- The number of bits of a byte that are set. -/
def ones (byte : UInt8) : Nat := (List.range 8).countP fun i => byte.toNat.testBit (7 - i)

/-- The number of bits that are set. -/
def countOnes (bits : ByteArray) : Nat :=
  (List.range bits.size).foldl (fun count i => count + ones (byteAt bits i)) 0

/-- Clears the bits that belong to no block of the volume. -/
def clearPadding (blocks : Nat) (bits : ByteArray) : ByteArray :=
  tabulate bits.size fun i =>
    if i < blocks / 8 then byteAt bits i
    else if i = blocks / 8 then byteAt bits i &&& headMask blocks
    else 0

/-- The bitmap of `blocks` blocks that these bytes store. -/
def ofBytes (blocks : Nat) (bytes : ByteArray) : Packed :=
  let bits := clearPadding blocks bytes
  ⟨bits, blocks, countOnes bits, (nonzero? bits bits.size 0).getD 0⟩

variable {κ : Type} [BlockStore κ]

/-- Reads the bitmap of `blocks` blocks that is stored from block `start` on. -/
def load (start blocks : Nat) : Action κ Packed := do
  let bytes ← readStored start (storedBlocks blocks) 0 ByteArray.empty
  return ofBytes blocks bytes

/-- Stores `count` blocks of the bytes from number `i` on. -/
def writeFrom (bits : ByteArray) (start : Nat) : (count i : Nat) → Action κ Unit
  | 0, _ => pure ()
  | count + 1, i => do
    BlockStore.writeBlock (storedAt start i) (Bytes.ofSlice 512 bits (i * 512))
    writeFrom bits start count (i + 1)

/-- Stores the bitmap from block `start` on. -/
def write (packed : Packed) (start : Nat) : Action κ Unit :=
  writeFrom packed.bits start (packed.bits.size / 512) 0

variable {bits : ByteArray}

/-! ## The search -/

theorem nonzero?_eq_none_iff {count i : Nat} :
    nonzero? bits count i = none ↔ ∀ k, i ≤ k → k < i + count → byteAt bits k = 0 := by
  induction count generalizing i with
  | zero => simp only [nonzero?, true_iff]; intro k _ _; omega
  | succ count ih =>
    rw [nonzero?]
    by_cases h : byteAt bits i = 0
    · rw [if_neg (Decidable.not_not.mpr h), ih]
      constructor
      · intro hall k h1 h2
        by_cases he : k = i
        · exact he ▸ h
        · exact hall k (by omega) (by omega)
      · exact fun hall k h1 h2 => hall k (by omega) (by omega)
    · rw [if_pos h]
      simp only [reduceCtorEq, false_iff]
      exact fun hall => h (hall i (Nat.le_refl _) (by omega))

theorem nonzero?_eq_some_iff {count i found : Nat} :
    nonzero? bits count i = some found ↔
      i ≤ found ∧ found < i + count ∧ byteAt bits found ≠ 0 ∧
        ∀ k, i ≤ k → k < found → byteAt bits k = 0 := by
  induction count generalizing i with
  | zero => simp only [nonzero?, reduceCtorEq, false_iff]; omega
  | succ count ih =>
    rw [nonzero?]
    by_cases h : byteAt bits i = 0
    · rw [if_neg (Decidable.not_not.mpr h), ih]
      constructor
      · rintro ⟨h1, h2, h3, hall⟩
        refine ⟨by omega, by omega, h3, fun k hk1 hk2 => ?_⟩
        by_cases he : k = i
        · exact he ▸ h
        · exact hall k (by omega) hk2
      · rintro ⟨h1, h2, h3, hall⟩
        have : i ≠ found := fun he => h3 (he ▸ h)
        exact ⟨by omega, by omega, h3, fun k hk1 hk2 => hall k (by omega) hk2⟩
    · rw [if_pos h, Option.some.injEq]
      constructor
      · rintro rfl
        exact ⟨Nat.le_refl _, by omega, h, fun k _ _ => by omega⟩
      · rintro ⟨h1, _, _, hall⟩
        by_cases he : i = found
        · exact he
        · exact absurd (hall i (Nat.le_refl _) (by omega)) h

end Packed

end Diskette.Bitmap
