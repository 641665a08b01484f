import Diskette.Bytes.Number
import Diskette.Error
import Diskette.Text.Utf8

/-!
# DiskCopy 4.2 headers

A DiskCopy 4.2 file starts with an 84-byte big-endian header: a name of at most 63 bytes after its
length, the sizes of the data and of the tags, a checksum of each, two format bytes and the private
word `0x0100`.

* `addWord_injective`: one step of the checksum loses nothing about the word.
-/

namespace Diskette.Header

/-- What a DiskCopy 4.2 header says about the data. -/
structure DiskCopy where
  name : String
  dataSize : Nat
  tagSize : Nat
  dataChecksum : UInt32
  deriving DecidableEq

namespace DiskCopy

/-- The size of a header. -/
abbrev size : Nat := 84

/-- Where a header keeps the checksum of the data. -/
abbrev checksumOffset : Nat := 0x48

/-! ## The checksum -/

/-- A checksum with one more 16-bit word: the word is added and the sum turned right by one bit. -/
def addWord (sum : UInt32) (word : UInt32) : UInt32 :=
  ((sum + word) >>> 1) ||| ((sum + word) <<< 31)

/-- The big-endian word at an offset; a missing low byte is zero. -/
def wordAt (data : ByteArray) (offset : Nat) : UInt32 :=
  ((byteAt data offset).toUInt32 <<< 8) ||| (byteAt data (offset + 1)).toUInt32

/-- A checksum with the `count` words of `data` from `offset` on. -/
def checksumFrom (data : ByteArray) : (count offset : Nat) → (sum : UInt32) → UInt32
  | 0, _, sum => sum
  | count + 1, offset, sum =>
    checksumFrom data count (offset + 2) (addWord sum (wordAt data offset))

/-- The checksum of the data. -/
def checksum (data : ByteArray) : UInt32 := checksumFrom data ((data.size + 1) / 2) 0 0

private theorem rotateRight_injective {a b : UInt32}
    (h : (a >>> 1) ||| (a <<< 31) = (b >>> 1) ||| (b <<< 31)) : a = b := by
  have hb := congrArg UInt32.toBitVec h
  simp only [UInt32.toBitVec_or, UInt32.toBitVec_shiftRight, UInt32.toBitVec_shiftLeft] at hb
  apply UInt32.toBitVec_inj.mp
  apply BitVec.eq_of_getLsbD_eq
  intro i hi
  have h1 := congrArg (fun v => v.getLsbD (if i = 0 then 31 else i - 1)) hb
  by_cases h0 : i = 0
  · subst h0
    simpa using h1
  · have e : 1 + (i - 1) = i := by omega
    have hlt : ¬ i - 1 = 31 := by omega
    have hlt' : i - 1 < 31 := by omega
    simpa [h0, e, hlt, hlt'] using h1

theorem addWord_injective {sum a b : UInt32} (h : addWord sum a = addWord sum b) : a = b := by
  have := rotateRight_injective h
  simpa using this

/-! ## The header -/

/-- The longest name. -/
abbrev maxNameLength : Nat := 63

/-- The name of new files: `Untitled`. -/
def newName : List UInt8 := [0x55, 0x6E, 0x74, 0x69, 0x74, 0x6C, 0x65, 0x64]

/-- The word that every header ends with. -/
abbrev privateWord : Nat := 0x0100

/-- Whether a file of `fileSize` bytes that starts with these bytes is a DiskCopy 4.2 file. -/
def describes (head : Bytes size) (fileSize : Nat) : Bool :=
  (head.byte 0).toNat ≤ maxNameLength ∧ beNat head.data 0x52 2 = privateWord ∧
    size + beNat head.data 0x40 4 + beNat head.data 0x44 4 = fileSize

/-- Reads the header of a file of `fileSize` bytes. -/
def parse (head : Bytes size) (fileSize : Nat) : Except DiskError DiskCopy :=
  let nameLength := (head.byte 0).toNat
  let word := beNat head.data 0x52 2
  let dataSize := beNat head.data 0x40 4
  let tagSize := beNat head.data 0x44 4
  if nameLength > maxNameLength then .error (.format .diskCopy42 (.nameTooLong nameLength))
  else if word ≠ privateWord then .error (.format .diskCopy42 (.wrongPrivateWord word))
  else if dataSize = 0 ∨ dataSize % 512 ≠ 0 then
    .error (.format .diskCopy42 (.dataSizeNotBlocks dataSize))
  else if size + dataSize + tagSize > fileSize then
    .error (.format .diskCopy42 (.headerExceedsFile (size + dataSize + tagSize) fileSize))
  else
    .ok
      { name := Text.decodeLossy (slice head.data 1 nameLength).toList
        dataSize
        tagSize
        dataChecksum := UInt32.ofNat (beNat head.data checksumOffset 4) }

/-- The number of the disk format for the usual sizes. -/
def formatCode (blocks : Nat) : UInt8 :=
  match blocks with
  | 800 => 0
  | 1600 => 1
  | 1440 => 2
  | 2880 => 3
  | _ => 0xFF

/-- The header of a new file of `blocks` blocks of zeros, whose checksums are zero. -/
def newHeader (blocks : Nat) : Bytes size :=
  Bytes.ofList size <|
    [8] ++ newName ++ List.replicate 55 0 ++ beBytes 4 (blocks * 512) ++ List.replicate 12 0 ++
      [formatCode blocks, if blocks = 800 then 0x12 else 0x22] ++ beBytes 2 privateWord

end DiskCopy

end Diskette.Header
