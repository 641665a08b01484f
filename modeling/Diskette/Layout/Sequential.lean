import Diskette.BlockNumber
import Diskette.Storage

/-!
# The sequential layout

Blocks one after the other from a base on: block `n` takes the 512 bytes from `base + 512 * n` on.
This is the ProDOS order.
-/

namespace Diskette.Layout

/-- A run of blocks, each one right after the one before it. -/
structure Sequential where
  /-- Where block 0 starts. -/
  base : Nat
  blocks : Nat
  deriving DecidableEq, Repr

namespace Sequential

/-- The number of bytes that `blocks` blocks take. -/
def dataSize (blocks : Nat) : Nat := blocks * 512

/-- The layout of a file that holds nothing but blocks. -/
def ofFileSize (size : Nat) : Except DiskError Sequential :=
  if size = 0 ∨ size % 512 ≠ 0 then .error (.format .proDosOrder (.sizeNotBlocks size))
  else if size / 512 < 0x100000000 then .ok ⟨0, size / 512⟩
  else .error (.format .proDosOrder .tooManyBlocks)

/-- Where a block starts. -/
def offset (layout : Sequential) (block : Nat) : Nat := layout.base + block * 512

/-- Where a block of the layout starts. -/
def blockOffset? (layout : Sequential) (block : Nat) : Option Nat :=
  if block < layout.blocks then some (layout.offset block) else none

/-- The bytes of a block. -/
def readBlock (layout : Sequential) (storage : Storage) (host : Host) (block : Nat) :
    Except DiskError Block := do
  checkBlock block layout.blocks
  return Bytes.ofSlice 512 (← storage.read host (layout.offset block) 512) 0

/-- Replaces the bytes of a block. -/
def writeBlock [Medium] (layout : Sequential) (storage : Storage) (block : Nat) (data : Block) :
    Action Host Unit := do
  Action.ofExcept (checkBlock block layout.blocks)
  storage.write (layout.offset block) data.data

end Sequential

end Diskette.Layout
