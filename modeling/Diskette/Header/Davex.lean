import Diskette.Bytes.Number
import Diskette.Error

/-!
# Davex headers

A Davex file starts with a 512-byte header: a fixed text of 16 bytes, and at byte 33 the number of
blocks as a 16-bit little-endian number.

* `length_identity`: the text has 16 bytes.
-/

namespace Diskette.Header.Davex

/-- The size of a header. -/
abbrev size : Nat := 512

/-- Where a header keeps the number of blocks. -/
abbrev blocksOffset : Nat := 33

/-- The bytes at the start of the file: a grave accent, the text `VSTORE [Davex]` and a zero. -/
def identity : List UInt8 :=
  [0x60, 0x56, 0x53, 0x54, 0x4F, 0x52, 0x45, 0x20, 0x5B, 0x44, 0x61, 0x76, 0x65, 0x78, 0x5D, 0x00]

theorem length_identity : identity.length = 16 := rfl

/-- Whether a file that starts with these bytes has the identity. -/
def hasIdentity (data : ByteArray) : Bool :=
  (List.range 16).all fun i => byteAt data i == identity[i]?.getD 0

/-- Reads the header of a file of `fileSize` bytes: the number of its blocks. -/
def parse (head : Bytes size) (fileSize : Nat) : Except DiskError Nat :=
  if hasIdentity head.data then
    let blocks := leNat head.data blocksOffset 2
    if blocks = 0 ∨ size + blocks * 512 > fileSize then
      .error (.format .davex (.blocksOutsideFile blocks (size + blocks * 512) fileSize))
    else .ok blocks
  else .error (.format .davex .noDavexIdentity)

/-- The header of a new file of `blocks` blocks. -/
def newHeader (blocks : Nat) : Bytes size :=
  Bytes.ofList size (identity ++ List.replicate 17 0 ++ leBytes 2 blocks)

end Diskette.Header.Davex
