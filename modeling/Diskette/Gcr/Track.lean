import Diskette.Gcr.Address
import Diskette.Gcr.SixAndTwo

/-!
# Tracks

A track is a circle of disk bytes: the byte after the last one is the first. A sector is found by
its address field, which a prologue announces; a second prologue announces its data field.

* `byte_mod`: places that are a whole number of turns apart hold the same byte.
* `size_writeField`: writing a field keeps the length of a track.
-/

namespace Diskette.Gcr

/-- The number of disk bytes of a track in an image. -/
abbrev trackSize : Nat := 6656

/-- The disk bytes before an address field. -/
def addressPrologue : List UInt8 := [0xD5, 0xAA, 0x96]

/-- The disk bytes before a data field. -/
def dataPrologue : List UInt8 := [0xD5, 0xAA, 0xAD]

/-- The disk bytes after either field. -/
def epilogue : List UInt8 := [0xDE, 0xAA, 0xEB]

/-- The disk byte between fields. -/
def syncByte : UInt8 := 0xFF

namespace Track

/-- The byte at a place of a circular track. -/
def byte (track : ByteArray) (place : Nat) : UInt8 := byteAt track (place % track.size)

theorem byte_mod (track : ByteArray) (place : Nat) :
    byte track (place % track.size) = byte track place := by
  simp [byte]

/-- Whether `pattern` stands at a place of the track. -/
def occursAt (track : ByteArray) : (place : Nat) → (pattern : List UInt8) → Bool
  | _, [] => true
  | place, b :: pattern => byte track place == b && occursAt track (place + 1) pattern

/-- The `n` bytes of the track from a place on. -/
def field (n : Nat) (track : ByteArray) (place : Nat) : Bytes n :=
  Bytes.tabulate n fun i => byte track (place + i)

/-- The track with byte `i` set to `value`. -/
def setByte (track : ByteArray) (i : Nat) (value : UInt8) : ByteArray :=
  if h : i < track.size then track.set i value h else track

/-- The track with the `count` bytes of `data` from byte `i` on written to their places, where byte
0 belongs to `place`. -/
def writeFrom (data : ByteArray) (place : Nat) : (count i : Nat) → (track : ByteArray) → ByteArray
  | 0, _, track => track
  | count + 1, i, track =>
    writeFrom data place count (i + 1)
      (setByte track ((place + i) % track.size) (byteAt data i))

/-- The track with `data` written over it from a place on. -/
def writeField {n : Nat} (track : ByteArray) (place : Nat) (data : Bytes n) : ByteArray :=
  writeFrom data.data place n 0 track

@[simp] theorem size_setByte (track : ByteArray) (i : Nat) (value : UInt8) :
    (setByte track i value).size = track.size := by
  unfold setByte
  split
  · rw [← ByteArray.size_data, ByteArray.data_set, Array.size_set]; rfl
  · rfl

theorem size_writeFrom (data : ByteArray) (place count i : Nat) (track : ByteArray) :
    (writeFrom data place count i track).size = track.size := by
  induction count generalizing i track with
  | zero => rfl
  | succ count ih => rw [writeFrom, ih, size_setByte]

@[simp] theorem size_writeField {n : Nat} (track : ByteArray) (place : Nat) (data : Bytes n) :
    (writeField track place data).size = track.size := size_writeFrom ..

/-! ## Formatting -/

/-- The data field of a sector of zeros. -/
def zeroField : List UInt8 := (encodeSector (Bytes.zero 256)).data.toList

/-- A freshly formatted sector: a gap, an address field, a short gap, and a data field of zeros. -/
def formattedSector (volume track sector : UInt8) : List UInt8 :=
  List.replicate 40 syncByte ++ addressPrologue ++
    (AddressField.encode ⟨volume, track, sector⟩).data.toList ++ epilogue ++
    List.replicate 6 syncByte ++ dataPrologue ++ zeroField ++ epilogue

/-- Sixteen freshly formatted sectors in order. -/
def formattedSectors (volume track : UInt8) : List UInt8 :=
  (List.range 16).flatMap fun sector => formattedSector volume track (UInt8.ofNat sector)

/-- A freshly formatted track: sixteen sectors of zeros, and a gap up to the end. -/
def formatted (volume track : UInt8) : ByteArray :=
  let sectors := formattedSectors volume track
  (sectors ++ List.replicate (trackSize - sectors.length) syncByte).toByteArray

end Track

end Diskette.Gcr
