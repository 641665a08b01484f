import Diskette.Bytes.Number
import Diskette.Error

/-!
# 2IMG headers

A 2IMG file starts with a 64-byte little-endian header: the signature `2IMG`, a creator code, the
header's own size and version, the layout of the data, flags, a block count, and the offset and
length of the data, of a comment and of the creator's own data. The last 16 bytes are reserved.

* `locked_iff`: an image is locked if the top bit of its flags is set.
-/

namespace Diskette.Header

/-- The layouts that the data of a 2IMG file can have. -/
inductive DataFormat where
  | dos
  | proDos
  | nibble
  deriving DecidableEq, Repr

namespace DataFormat

/-- The number of a layout in a header. -/
def code : DataFormat → Nat
  | dos => 0
  | proDos => 1
  | nibble => 2

/-- The layout with that number. -/
def ofCode? : Nat → Option DataFormat
  | 0 => some dos
  | 1 => some proDos
  | 2 => some nibble
  | _ => none

theorem ofCode?_code (format : DataFormat) : ofCode? format.code = some format := by
  cases format <;> rfl

end DataFormat

/-- What a 2IMG header says. -/
structure TwoImg where
  creator : Bytes 4
  headerSize : UInt16
  version : UInt16
  format : DataFormat
  flags : UInt32
  blocks : UInt32
  dataOffset : UInt32
  dataLength : UInt32
  commentOffset : UInt32
  commentLength : UInt32
  creatorDataOffset : UInt32
  creatorDataLength : UInt32
  deriving DecidableEq

namespace TwoImg

/-- The four bytes at the start of the file: `2IMG`. -/
def signature : List UInt8 := [0x32, 0x49, 0x4D, 0x47]

/-- The creator code of new files: `PDSK`. -/
def ownCreator : Bytes 4 := Bytes.ofList 4 [0x50, 0x44, 0x53, 0x4B]

/-- The header of a new file of `blocks` blocks in ProDOS order. -/
def ofBlocks (blocks : Nat) : Except DiskError TwoImg :=
  if blocks * 512 < 0x100000000 then
    .ok
      { creator := ownCreator
        headerSize := 64
        version := 1
        format := .proDos
        flags := 0
        blocks := UInt32.ofNat blocks
        dataOffset := 64
        dataLength := UInt32.ofNat (blocks * 512)
        commentOffset := 0
        commentLength := 0
        creatorDataOffset := 0
        creatorDataLength := 0 }
  else .error (.format .twoImg (.lengthOverflow blocks))

/-- Whether the image must not be written. -/
def locked (header : TwoImg) : Bool := 0x80000000 ≤ header.flags.toNat

theorem locked_iff (header : TwoImg) : header.locked = true ↔ header.flags.toNat.testBit 31 := by
  have h := header.flags.toNat_lt
  simp only [locked, decide_eq_true_eq, Nat.testBit_eq_decide_div_mod_eq]
  omega

/-- Whether a file that starts with these bytes has the signature. -/
def hasSignature (data : ByteArray) : Bool :=
  byteAt data 0 = 0x32 ∧ byteAt data 1 = 0x49 ∧ byteAt data 2 = 0x4D ∧ byteAt data 3 = 0x47

/-- The 16-bit number at an offset. -/
def word16 (bytes : Bytes 64) (offset : Nat) : UInt16 := UInt16.ofNat (leNat bytes.data offset 2)

/-- The 32-bit number at an offset. -/
def word32 (bytes : Bytes 64) (offset : Nat) : UInt32 := UInt32.ofNat (leNat bytes.data offset 4)

/-- Reads a header. -/
def parse (bytes : Bytes 64) : Except DiskError TwoImg :=
  if hasSignature bytes.data then
    let headerSize := word16 bytes 0x08
    if headerSize.toNat < 64 then .error (.format .twoImg (.headerTooSmall headerSize.toNat))
    else
      let code := leNat bytes.data 0x0C 4
      match DataFormat.ofCode? code with
      | none => .error (.format .twoImg (.unknownDataFormat code))
      | some format =>
        .ok
          { creator := Bytes.ofSlice 4 bytes.data 0x04
            headerSize
            version := word16 bytes 0x0A
            format
            flags := word32 bytes 0x10
            blocks := word32 bytes 0x14
            dataOffset := word32 bytes 0x18
            dataLength := word32 bytes 0x1C
            commentOffset := word32 bytes 0x20
            commentLength := word32 bytes 0x24
            creatorDataOffset := word32 bytes 0x28
            creatorDataLength := word32 bytes 0x2C }
  else .error (.format .twoImg .noTwoImgSignature)

/-- The bytes of a header before the reserved ones. -/
def fields (header : TwoImg) : List UInt8 :=
  signature ++ header.creator.data.data.toList ++
    leBytes 2 header.headerSize.toNat ++ leBytes 2 header.version.toNat ++
    leBytes 4 header.format.code ++ leBytes 4 header.flags.toNat ++
    leBytes 4 header.blocks.toNat ++ leBytes 4 header.dataOffset.toNat ++
    leBytes 4 header.dataLength.toNat ++ leBytes 4 header.commentOffset.toNat ++
    leBytes 4 header.commentLength.toNat ++ leBytes 4 header.creatorDataOffset.toNat ++
    leBytes 4 header.creatorDataLength.toNat

/-- The bytes of a header; the reserved ones are zero. -/
def toBytes (header : TwoImg) : Bytes 64 := Bytes.ofList 64 header.fields

end TwoImg

end Diskette.Header
