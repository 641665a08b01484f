import Diskette.Header.Davex
import Diskette.Header.DiskCopy
import Diskette.Header.TwoImg
import Diskette.Layout

/-!
# File sizes

How large a new file of each format is, and which numbers of blocks a format takes.

* `fileSize_proDosOrder`: blocks without a header take 512 bytes each.
-/

namespace Diskette.Format

open Header Layout

/-- The size of a new file of `blocks` blocks. -/
def fileSize (format : Format) (blocks : Nat) : Except DiskError Nat :=
  if blocks = 0 then .error (.format format .noBlocks)
  else
    match format with
    | proDosOrder => .ok (Sequential.dataSize blocks)
    | dosOrder => Interleaved.dataSize blocks
    | nibble => Nibble.dataSize blocks
    | twoImg =>
      match TwoImg.ofBlocks blocks with
      | .ok header => .ok (header.dataOffset.toNat + header.dataLength.toNat)
      | .error e => .error e
    | diskCopy42 => .ok (DiskCopy.size + Sequential.dataSize blocks)
    | davex =>
      if blocks < 0x10000 then .ok (Davex.size + Sequential.dataSize blocks)
      else .error (.format .davex .davexBlockLimit)

theorem fileSize_proDosOrder {blocks : Nat} (h : blocks ≠ 0) :
    fileSize proDosOrder blocks = .ok (blocks * 512) := by
  simp [fileSize, h, Sequential.dataSize]

end Diskette.Format
