import Diskette.Bitmap
import Diskette.Fork.Reading

/-!
# Writing forks

A fork is written from its first block on, and its blocks are taken from a bitmap one by one. Data
blocks of zeros, and nodes of nothing but holes, are left out, except for the first ones. When a
write fails, the blocks that were taken are released again.

* `holds_of_forBlocks`: the shape chosen for a number of blocks has room for them.
-/

namespace Diskette

/-- The largest size of a fork: an entry has three bytes for it. -/
abbrev maxEof : Nat := 0xFFFFFF

/-- What a write works on: the store, the bitmap, and the blocks taken from the bitmap so far, the
last one first. -/
structure Draft (κ : Type) where
  store : κ
  bitmap : Bitmap
  taken : List Nat

namespace Draft

variable {κ : Type} [BlockStore κ]

omit [BlockStore κ] in
/-- Takes a block from the bitmap. -/
def takeBlock : Action (Draft κ) Nat := fun ⟨store, bitmap, taken⟩ =>
  match bitmap.alloc with
  | (some block, bitmap) => .ok block ⟨store, bitmap, block :: taken⟩
  | (none, bitmap) => .error .diskFull ⟨store, bitmap, taken⟩

/-- Writes a block of the store. -/
def putBlock (block : Nat) (data : Block) : Action (Draft κ) Unit :=
  Action.zoom (fun ⟨store, bitmap, taken⟩ => (store, fun store => ⟨store, bitmap, taken⟩))
    (BlockStore.writeBlock block data)

omit [BlockStore κ] in
/-- The number of blocks taken so far. -/
def used : Action (Draft κ) Nat := Action.ask fun draft => .ok draft.taken.length

/-! ## Subtrees -/

/-- A block of zeros. -/
def zeroBlock : Block := Bytes.zero 512

/-- Data block number `n`, with zeros past the end of the data. -/
def dataBlock (data : ByteArray) (n : Nat) : Block := Bytes.ofSlice 512 data (n * 512)

/-- Whether the `count` data blocks from number `first` on are all zeros. -/
def isHole (data : ByteArray) : (count first : Nat) → Bool
  | 0, _ => true
  | count + 1, first => dataBlock data first = zeroBlock && isHole data count (first + 1)

/-- Writes `count` subtrees of `span` data blocks each, the first one from data block `first` on,
and appends their pointers. -/
def writeChildren (child : (first : Nat) → Action (Draft κ) Nat) (span : Nat) :
    (count first : Nat) → (pointers : Array Nat) → Action (Draft κ) (Array Nat)
  | 0, _, pointers => return pointers
  | count + 1, first, pointers => do
    let block ← child first
    Action.ofExcept (checkPointer block)
    writeChildren child span count (first + span) (pointers.push block)

/-- Writes the subtree with `level` levels of nodes that starts with data block `first`, out of
`blocks` data blocks in all, and returns its pointer. -/
def writeSubtree (data : ByteArray) (blocks : Nat) : (level first : Nat) → Action (Draft κ) Nat
  | 0, first => do
    if first ≠ 0 ∧ isHole data 1 first then
      return 0
    else
      let block ← takeBlock
      putBlock block (dataBlock data first)
      return block
  | level + 1, first => do
    let covered := min (spanOf (level + 1)) (blocks - first)
    if first ≠ 0 ∧ isHole data covered first then
      return 0
    else
      let key ← takeBlock
      let span := spanOf level
      let pointers ← writeChildren (writeSubtree data blocks level) span
        ((covered + (span - 1)) / span) first #[]
      putBlock key (Node.pack pointers)
      return key

/-! ## Whole forks -/

/-- Writes a fork in the smallest shape that holds it. -/
def writePlain (data : ByteArray) : Action (Draft κ) Descriptor := do
  if maxEof < data.size then
    throw (.fileTooLarge data.size)
  else
    let blocks := max 1 ((data.size + 511) / 512)
    let storageType := StorageType.forBlocks blocks
    let keyBlock ← writeSubtree data blocks (storageType.levels?.getD 0) 0
    let blocksUsed ← used
    return ⟨storageType, keyBlock, blocksUsed, data.size⟩

/-- The key block of an extended file with the mini entries of its forks. -/
def keyBlock (dataEntry resourceEntry : Bytes 8) : Block :=
  (zeroBlock.overwrite Fork.data.entryOffset dataEntry.data).overwrite
    Fork.resource.entryOffset resourceEntry.data

/-- Writes both forks of an extended file and its key block. -/
def writeBoth (data resource : ByteArray) : Action (Draft κ) Descriptor := do
  let key ← takeBlock
  let dataFork ← writePlain data
  let before ← used
  let resourceFork ← writePlain resource
  let dataEntry ← Action.ofExcept
    { dataFork with blocksUsed := dataFork.blocksUsed - 1 }.toMini
  let resourceEntry ← Action.ofExcept
    { resourceFork with blocksUsed := resourceFork.blocksUsed - before }.toMini
  putBlock key (keyBlock dataEntry resourceEntry)
  let blocksUsed ← used
  return ⟨.extended, key, blocksUsed, 512⟩

/-- Runs a write on a store and a bitmap. If it fails, what it took is released. -/
def commit (write : Action (Draft κ) Descriptor) : Action (κ × Bitmap) Descriptor :=
  fun (store, bitmap) =>
    match write ⟨store, bitmap, []⟩ with
    | .ok descriptor ⟨store, bitmap, _⟩ => .ok descriptor (store, bitmap)
    | .error e ⟨store, bitmap, taken⟩ =>
      .error e (store, taken.foldl (fun bitmap block => bitmap.release block) bitmap)

theorem holds_of_forBlocks {blocks levels : Nat}
    (h : (StorageType.forBlocks blocks).levels? = some levels) (hb : blocks ≤ spanOf 2) :
    blocks ≤ spanOf levels := by
  unfold StorageType.forBlocks at h
  split at h
  · cases h
    exact ‹blocks ≤ 1›
  · split at h
    · cases h
      exact ‹blocks ≤ 256›
    · cases h
      exact hb

end Draft

variable {κ : Type} [BlockStore κ]

/-- Writes data as a new fork. -/
def writeFork (data : ByteArray) : Action (κ × Bitmap) Descriptor :=
  Draft.commit (Draft.writePlain data)

/-- Writes the two forks of a new extended file. -/
def writeExtended (data resource : ByteArray) : Action (κ × Bitmap) Descriptor :=
  Draft.commit (Draft.writeBoth data resource)

end Diskette
