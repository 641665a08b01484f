import Diskette.Bytes
import Diskette.Disk

/-!
# Bitmaps

Which blocks of a volume are free. On the volume a bitmap takes one bit for each block, a set bit
for a free one; the first of eight blocks has the top bit of their byte, and what is left of the
last bitmap block is zero. Blocks are allocated in ascending order from the group of eight in which
the last one was found, and around.

* `firstFree?_eq_none_iff`, `firstFree?_eq_some_iff`: the search finds the first free block.
* `isFree_freshly`: in a new bitmap exactly the blocks of the volume are free.
-/

namespace Diskette

/-- Which blocks of a volume are free. -/
structure Bitmap where
  /-- For each block whether it is free. -/
  bits : Array Bool
  /-- The group of eight blocks from which on the next free block is looked for. -/
  cursor : Nat

namespace Bitmap

/-- The number of bits in one block. -/
abbrev bitsPerBlock : Nat := 4096

/-- The number of blocks that the bitmap of `blocks` blocks takes. -/
def storedBlocks (blocks : Nat) : Nat := (blocks + (bitsPerBlock - 1)) / bitsPerBlock

/-- A bitmap of `blocks` free blocks. -/
def freshly (blocks : Nat) : Bitmap := ⟨Array.replicate blocks true, 0⟩

/-- The number of blocks of the volume. -/
def blocks (bitmap : Bitmap) : Nat := bitmap.bits.size

/-- The number of free blocks. -/
def freeBlocks (bitmap : Bitmap) : Nat := bitmap.bits.count true

/-- Whether the volume has the block and it is free. -/
def isFree (bitmap : Bitmap) (block : Nat) : Bool := (bitmap.bits[block]?).getD false

/-! ## Allocating -/

/-- The first free one of the `count` blocks from `block` on. -/
def firstFree? (bits : Array Bool) : (count block : Nat) → Option Nat
  | 0, _ => none
  | count + 1, block =>
    if (bits[block]?).getD false then some block else firstFree? bits count (block + 1)

/-- The free block that is allocated next. -/
def next? (bitmap : Bitmap) : Option Nat :=
  let start := bitmap.cursor * 8
  firstFree? bitmap.bits (bitmap.bits.size - start) start <|> firstFree? bitmap.bits start 0

/-- Allocates the next free block. -/
def alloc (bitmap : Bitmap) : Option Nat × Bitmap :=
  match bitmap.next? with
  | some block => (some block, ⟨bitmap.bits.setIfInBounds block false, block / 8⟩)
  | none => (none, bitmap)

/-- Allocates a certain block and tells whether it was free. -/
def allocAt (block : Nat) (bitmap : Bitmap) : Bool × Bitmap :=
  if bitmap.isFree block then (true, ⟨bitmap.bits.setIfInBounds block false, bitmap.cursor⟩)
  else (false, bitmap)

/-- Makes a block free; nothing happens to a block that the volume does not have. -/
def release (block : Nat) : Bitmap → Bitmap
  | ⟨bits, cursor⟩ => ⟨bits.setIfInBounds block true, cursor⟩

/-! ## The stored bitmap -/

/-- Where bitmap block number `i` is stored when the first one is at `start`: block numbers end at
`0xFFFFFFFF`. -/
def storedAt (start i : Nat) : Nat := min (start + i) 0xFFFFFFFF

/-- The bit of a block in the bytes of a stored bitmap. -/
def bitAt (bytes : ByteArray) (block : Nat) : Bool :=
  (byteAt bytes (block / 8)).toNat.testBit (7 - block % 8)

/-- A number with the bits of the `count` blocks from `block` on added below it. -/
def appendBits (bits : Array Bool) : (count block acc : Nat) → Nat
  | 0, _, acc => acc
  | count + 1, block, acc =>
    appendBits bits count (block + 1) (2 * acc + ((bits[block]?).getD false).toNat)

/-- The bytes of bitmap block number `i`. -/
def storedBlock (bitmap : Bitmap) (i : Nat) : Block :=
  Bytes.tabulate 512 fun j =>
    UInt8.ofNat (appendBits bitmap.bits 8 (i * bitsPerBlock + j * 8) 0)

/-- The bitmap of `blocks` blocks that these bytes store. -/
def ofBytes (blocks : Nat) (bytes : ByteArray) : Bitmap :=
  let bits := (Array.range blocks).map (bitAt bytes)
  ⟨bits, ((firstFree? bits blocks 0).getD 0) / 8⟩

variable {κ : Type} [BlockStore κ]

/-- The bytes of `count` bitmap blocks from number `i` on, appended to `acc`. -/
def readStored (start : Nat) : (count i : Nat) → (acc : ByteArray) → Action κ ByteArray
  | 0, _, acc => return acc
  | count + 1, i, acc => do
    let block ← BlockStore.readBlock (storedAt start i)
    readStored start count (i + 1) (acc ++ block.data)

/-- Reads the bitmap of `blocks` blocks that is stored from block `start` on. -/
def load (start blocks : Nat) : Action κ Bitmap := do
  let bytes ← readStored start (storedBlocks blocks) 0 ByteArray.empty
  return ofBytes blocks bytes

/-- Stores `count` bitmap blocks from number `i` on. -/
def writeStored (bitmap : Bitmap) (start : Nat) : (count i : Nat) → Action κ Unit
  | 0, _ => pure ()
  | count + 1, i => do
    BlockStore.writeBlock (storedAt start i) (bitmap.storedBlock i)
    writeStored bitmap start count (i + 1)

/-- Stores the bitmap from block `start` on. -/
def write (bitmap : Bitmap) (start : Nat) : Action κ Unit :=
  writeStored bitmap start (storedBlocks bitmap.blocks) 0

/-! ## What is free -/

theorem firstFree?_eq_none_iff {bits : Array Bool} {count block : Nat} :
    firstFree? bits count block = none ↔
      ∀ i, block ≤ i → i < block + count → (bits[i]?).getD false = false := by
  induction count generalizing block with
  | zero => simp only [firstFree?, true_iff]; intro i _ _; omega
  | succ count ih =>
    rw [firstFree?]
    by_cases h : (bits[block]?).getD false = true
    · simp only [h, if_true, reduceCtorEq, false_iff]
      intro hall
      have := hall block (Nat.le_refl _) (by omega)
      rw [h] at this
      cases this
    · rw [if_neg h, ih]
      constructor
      · intro hall i h1 h2
        by_cases he : i = block
        · subst he; simpa using h
        · exact hall i (by omega) (by omega)
      · intro hall i h1 h2
        exact hall i (by omega) (by omega)

theorem firstFree?_eq_some_iff {bits : Array Bool} {count block found : Nat} :
    firstFree? bits count block = some found ↔
      block ≤ found ∧ found < block + count ∧ (bits[found]?).getD false = true ∧
        ∀ i, block ≤ i → i < found → (bits[i]?).getD false = false := by
  -- On the blocks that are left; the ones in front of `block` are of no account.
  induction count generalizing block with
  | zero => simp only [firstFree?, reduceCtorEq, false_iff]; omega
  | succ count ih =>
    rw [firstFree?]
    by_cases h : (bits[block]?).getD false = true
    · rw [if_pos h, Option.some.injEq]
      constructor
      · rintro rfl
        exact ⟨Nat.le_refl _, by omega, h, fun i _ _ => by omega⟩
      · rintro ⟨h1, _, _, hall⟩
        by_cases he : block = found
        · exact he
        · have := hall block (Nat.le_refl _) (by omega)
          rw [h] at this
          cases this
    · rw [if_neg h, ih]
      constructor
      · rintro ⟨h1, h2, h3, hall⟩
        refine ⟨by omega, by omega, h3, fun i hi1 hi2 => ?_⟩
        by_cases he : i = block
        · subst he; simpa using h
        · exact hall i (by omega) hi2
      · rintro ⟨h1, h2, h3, hall⟩
        have : block ≠ found := by rintro rfl; exact h h3
        exact ⟨by omega, by omega, h3, fun i hi1 hi2 => hall i (by omega) hi2⟩

theorem isFree_freshly (blocks block : Nat) :
    (freshly blocks).isFree block = decide (block < blocks) := by
  by_cases h : block < blocks <;> simp [freshly, isFree, h]

end Bitmap

end Diskette
