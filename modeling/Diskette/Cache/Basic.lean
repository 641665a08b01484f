import Diskette.Disk

/-!
# Block caches

A cache stands between its users and a disk. A block is checked out, looked at or changed through
its handle, and released again; a change reaches the disk when the block is written back. Whole
blocks can be read and replaced in one step, which makes every cache a block store.

* `run_readBlock_of_acquire_error`, `run_writeBlock_of_acquire_error`: a block that cannot be
  checked out is neither read nor replaced.
-/

namespace Diskette

/-- Stands for a checked-out block: its number, and the slot of the cache that holds it. -/
structure Handle where
  block : Nat
  slot : Nat
  deriving DecidableEq, Repr

/-- What every cache offers. -/
class BlockCache (κ : Type) where
  /-- The number of blocks of the disk. -/
  blocks : κ → Nat
  /-- Whether writing is refused. -/
  readOnly : κ → Bool
  /-- Checks out a block. A block can be checked out more than once. -/
  acquire : (block : Nat) → Action κ Handle
  /-- The bytes of a checked-out block. -/
  data : (handle : Handle) → κ → Except DiskError Block
  /-- Changes the bytes of a checked-out block. -/
  update : (handle : Handle) → (change : Block → Block) → Action κ Unit
  /-- Gives a block back. `dirty` says that it was changed, and `commit` asks for it to be written
  to the disk at once. -/
  release : (handle : Handle) → (dirty commit : Bool) → Action κ Unit
  /-- Records that a block was changed. -/
  markDirty : (block : Nat) → Action κ Unit
  /-- Writes every changed block to the disk and flushes it. -/
  sync : Action κ Unit

namespace BlockCache

variable {κ : Type} [BlockCache κ]

/-- The bytes of a block. -/
def readBlock (block : Nat) : Action κ Block := do
  let handle ← acquire block
  let copied ← Action.attempt (Action.ask (data handle))
  let released ← Action.attempt (release handle false false)
  Action.ofExcept (copied.bind fun bytes => released.map fun _ => bytes)

/-- Replaces the bytes of a block. -/
def writeBlock (block : Nat) (bytes : Block) : Action κ Unit := do
  let handle ← acquire block
  let copied ← Action.attempt (update handle fun _ => bytes)
  let released ← Action.attempt (release handle copied.isOk false)
  Action.ofExcept (copied.bind fun _ => released)

/-- Fills a block with zeros. -/
def zeroBlock (block : Nat) : Action κ Unit := writeBlock block (Bytes.zero 512)

instance : BlockStore κ where
  readBlock := readBlock
  writeBlock := writeBlock

theorem run_readBlock_of_acquire_error {block : Nat} {cache after : κ} {e : DiskError}
    (h : (acquire block).run cache = .error e after) :
    (readBlock block).run cache = .error e after := by
  simp only [readBlock, EStateM.run, bind, EStateM.bind] at h ⊢
  rw [h]

theorem run_writeBlock_of_acquire_error {block : Nat} {bytes : Block} {cache after : κ}
    {e : DiskError} (h : (acquire block).run cache = .error e after) :
    (writeBlock block bytes).run cache = .error e after := by
  simp only [writeBlock, EStateM.run, bind, EStateM.bind] at h ⊢
  rw [h]

end BlockCache

end Diskette
