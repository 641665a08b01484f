import Diskette.BlockNumber
import Diskette.Storage

/-!
# The interleaved layout

Tracks of sixteen 256-byte sectors in the order of DOS 3.3. A block is two sectors of one track,
found through a table.

* `sectorOrder_injective`: no two halves of blocks share a sector.
-/

namespace Diskette.Layout

/-- A run of tracks of eight blocks each. -/
structure Interleaved where
  /-- Where track 0 starts. -/
  base : Nat
  blocks : Nat
  deriving DecidableEq, Repr

namespace Interleaved

/-- For each half block of a track the sector that holds it. -/
def sectorOrder : Vector Nat 16 := #v[0, 14, 13, 12, 11, 10, 9, 8, 7, 6, 5, 4, 3, 2, 1, 15]

theorem sectorOrder_injective {i j : Fin 16} (h : sectorOrder.get i = sectorOrder.get j) :
    i = j := by
  revert i j
  decide

/-- The number of bytes that `blocks` blocks take; they have to fill whole tracks. -/
def dataSize (blocks : Nat) : Except DiskError Nat :=
  if blocks % 8 = 0 then .ok (blocks * 512)
  else .error (.format .dosOrder (.blocksNotTracks blocks))

/-- The layout of a file that holds nothing but tracks. -/
def ofFileSize (size : Nat) : Except DiskError Interleaved :=
  if size = 0 ∨ size % 4096 ≠ 0 then .error (.format .dosOrder (.sizeNotTracks size))
  else if size / 512 < 0x100000000 then .ok ⟨0, size / 512⟩
  else .error (.format .dosOrder .tooManyBlocks)

/-- Where the sector starts that holds half block `half` of a track. -/
def sectorOffset (layout : Interleaved) (track : Nat) (half : Fin 16) : Nat :=
  layout.base + track * 4096 + sectorOrder.get half * 256

/-- Where the first half of a block starts. -/
def firstOffset (layout : Interleaved) (block : Nat) : Nat :=
  layout.sectorOffset (block / 8) (firstHalf block)

/-- Where the second half of a block starts. -/
def secondOffset (layout : Interleaved) (block : Nat) : Nat :=
  layout.sectorOffset (block / 8) (secondHalf block)

/-- The bytes of a block. -/
def readBlock (layout : Interleaved) (storage : Storage) (host : Host) (block : Nat) :
    Except DiskError Block := do
  checkBlock block layout.blocks
  let first ← storage.read host (layout.firstOffset block) 256
  let second ← storage.read host (layout.secondOffset block) 256
  return (Bytes.ofSlice 256 first 0).append (Bytes.ofSlice 256 second 0)

/-- Replaces the bytes of a block, the first half first. -/
def writeBlock [Medium] (layout : Interleaved) (storage : Storage) (block : Nat) (data : Block) :
    Action Host Unit := do
  Action.ofExcept (checkBlock block layout.blocks)
  storage.write (layout.firstOffset block) (slice data.data 0 256)
  storage.write (layout.secondOffset block) (slice data.data 256 256)

end Interleaved

end Diskette.Layout
