import Diskette.Bytes
import Diskette.Error

/-!
# The 6-and-2 code

A disk can hold 64 of the byte values: the disk bytes. Each stands for six bits. A sector of 256
bytes is written as 343 of them: 86 auxiliary values gather the two low bits of the bytes, in
reverse order, then come the six high bits of each byte. Each value is combined with the one before
it by exclusive or, and the last disk byte repeats the last value as a checksum.

* `decodeSix?_eq`: a disk byte stands for its place among the disk bytes.
* `decodeSix?_encodeSix`: a disk byte is read back as the six bits that it stands for.
* `encodeSix_of_decodeSix?`: no other byte is read.
* `byte_encodeSector`: the disk byte at each place of an encoded sector.
-/

namespace Diskette.Gcr

/-- The disk bytes, in the order of the six bits that they stand for. -/
def diskBytes : Vector UInt8 64 :=
  #v[0x96, 0x97, 0x9A, 0x9B, 0x9D, 0x9E, 0x9F, 0xA6, 0xA7, 0xAB, 0xAC, 0xAD, 0xAE, 0xAF, 0xB2, 0xB3,
    0xB4, 0xB5, 0xB6, 0xB7, 0xB9, 0xBA, 0xBB, 0xBC, 0xBD, 0xBE, 0xBF, 0xCB, 0xCD, 0xCE, 0xCF, 0xD3,
    0xD6, 0xD7, 0xD9, 0xDA, 0xDB, 0xDC, 0xDD, 0xDE, 0xDF, 0xE5, 0xE6, 0xE7, 0xE9, 0xEA, 0xEB, 0xEC,
    0xED, 0xEE, 0xEF, 0xF2, 0xF3, 0xF4, 0xF5, 0xF6, 0xF7, 0xF9, 0xFA, 0xFB, 0xFC, 0xFD, 0xFE, 0xFF]

/-- For each byte the six bits that it stands for, if it is a disk byte. -/
def diskByteValues : Vector (Option UInt8) 256 :=
  Vector.ofFn fun byte => (diskBytes.toList.idxOf? (UInt8.ofNat byte)).map UInt8.ofNat

/-- The disk byte for the six low bits of `value`. -/
def encodeSix (value : UInt8) : UInt8 :=
  diskBytes.get ⟨value.toNat % 64, Nat.mod_lt _ (by decide)⟩

/-- The six bits that a disk byte stands for. -/
def decodeSix? (nibble : UInt8) : Option UInt8 :=
  diskByteValues.get ⟨nibble.toNat, nibble.toNat_lt⟩

theorem decodeSix?_eq (nibble : UInt8) :
    decodeSix? nibble = (diskBytes.toList.idxOf? nibble).map UInt8.ofNat := by
  have h := nibble.toNat_lt
  change (Vector.ofFn _)[nibble.toNat] = _
  simp

-- The table is looked at through `decodeSix?_eq` from here on, never evaluated.
attribute [irreducible] diskByteValues

/-- The two low bits of a byte, exchanged. -/
def swapLowBits (value : UInt8) : UInt8 :=
  ((value &&& 1) <<< 1) ||| ((value >>> 1) &&& 1)

/-- The six bits at place `i` of a sector before they are combined: auxiliary values at the first
86 places, high bits at the next 256, zero after that. -/
def plainValue (sector : Sector) (i : Nat) : UInt8 :=
  if i < 86 then
    swapLowBits (sector.byte i) ||| (swapLowBits (sector.byte (i + 86)) <<< 2) |||
      (swapLowBits (sector.byte (i + 172)) <<< 4)
  else sector.byte (i - 86) >>> 2

/-- The six bits at the place before `i`, zero at the first place. -/
def previousValue (sector : Sector) : (i : Nat) → UInt8
  | 0 => 0
  | i + 1 => plainValue sector i

/-- The 343 disk bytes of a sector. Place 342 has no value of its own, so the last disk byte is the
one of the value before it. -/
def encodeSector (sector : Sector) : Bytes 343 :=
  Bytes.tabulate 343 fun i => encodeSix (plainValue sector i ^^^ previousValue sector i)

/-- A sector as it was read. -/
structure DecodedSector where
  sector : Sector
  /-- Whether the last disk byte repeats the last value. -/
  checksumOk : Bool
  deriving DecidableEq

/-- The six bits of a disk byte, or the error that it is none. -/
def decodeNibble (nibble : UInt8) : Except DiskError UInt8 :=
  match decodeSix? nibble with
  | some value => .ok value
  | none => .error (.invalidNibble nibble)

/-- The values of the `count` disk bytes from place `i` on, after `acc` and appended to `values`:
each is the exclusive or of all the six bits read so far. -/
def separate (field : Bytes 343) :
    (count i : Nat) → (acc : UInt8) → (values : ByteArray) → Except DiskError ByteArray
  | 0, _, _, values => .ok values
  | count + 1, i, acc, values =>
    match decodeNibble (field.byte i) with
    | .ok value => separate field count (i + 1) (acc ^^^ value) (values.push (acc ^^^ value))
    | .error e => .error e

/-- Byte `i` of the sector with these 342 values. -/
def joinedByte (values : ByteArray) (i : Nat) : UInt8 :=
  (byteAt values (86 + i) <<< 2) |||
    swapLowBits ((byteAt values (i % 86) >>> UInt8.ofNat (i / 86 * 2)) &&& 3)

/-- Reads a sector from 343 disk bytes. A wrong checksum is no error; a byte that is no disk byte
is one. -/
def decodeSector (field : Bytes 343) : Except DiskError DecodedSector :=
  match separate field 342 0 0 (ByteArray.emptyWithCapacity 342) with
  | .error e => .error e
  | .ok values =>
    match decodeNibble (field.byte 342) with
    | .error e => .error e
    | .ok check =>
      .ok ⟨Bytes.tabulate 256 (joinedByte values), byteAt values 341 = check⟩

/-! ## The code of six bits -/

private theorem idxOf?_diskBytes :
    ∀ i : Fin 64, diskBytes.toList.idxOf? (diskBytes.get i) = some i.val := by
  decide +kernel

theorem decodeSix?_encodeSix (value : UInt8) :
    decodeSix? (encodeSix value) = some (value &&& 0x3F) := by
  have h : UInt8.ofNat (value.toNat % 64) = value &&& 0x3F := by
    apply UInt8.toNat_inj.mp
    have : (value &&& 0x3F).toNat = value.toNat % 64 :=
      Nat.and_two_pow_sub_one_eq_mod value.toNat 6
    rw [this, UInt8.toNat_ofNat']
    omega
  rw [decodeSix?_eq, encodeSix, idxOf?_diskBytes, ← h]
  rfl

theorem encodeSix_of_decodeSix? {nibble value : UInt8} (h : decodeSix? nibble = some value) :
    encodeSix value = nibble := by
  rw [decodeSix?_eq, Option.map_eq_some_iff] at h
  obtain ⟨i, hi, rfl⟩ := h
  obtain ⟨hlt, heq, _⟩ := List.idxOf?_eq_some_iff.mp hi
  have hlen : i < 64 := by simpa using hlt
  have hn : (UInt8.ofNat i).toNat % 64 = i := by rw [UInt8.toNat_ofNat']; omega
  unfold encodeSix
  simp only [hn]
  simpa [Vector.get] using heq

theorem byte_encodeSector (sector : Sector) {i : Nat} (h : i < 343) :
    (encodeSector sector).byte i = encodeSix (plainValue sector i ^^^ previousValue sector i) := by
  simp [encodeSector, h]

end Diskette.Gcr
