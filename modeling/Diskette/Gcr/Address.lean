import Diskette.Bytes
import Diskette.Error

/-!
# Address fields

An address field names the volume, the track and the sector that follow it. Each byte is written in
the 4-and-4 code: the odd bits in one disk byte, the even bits in the next. A fourth byte, the
exclusive or of the three, checks them.

* `joinBits_oddBits_evenBits`: a byte is read back from its two halves.
* `AddressField.decode_encode`: an address field is read back as it was written.
-/

namespace Diskette.Gcr

/-- The disk byte with the odd bits of a byte. -/
def oddBits (value : UInt8) : UInt8 := (value >>> 1) ||| 0xAA

/-- The disk byte with the even bits of a byte. -/
def evenBits (value : UInt8) : UInt8 := value ||| 0xAA

/-- The byte with these odd and even bits. -/
def joinBits (odd even : UInt8) : UInt8 := ((odd <<< 1) ||| 1) &&& even

theorem joinBits_oddBits_evenBits (value : UInt8) :
    joinBits (oddBits value) (evenBits value) = value := by
  have : ∀ n : Fin 256,
      joinBits (oddBits (UInt8.ofNat n)) (evenBits (UInt8.ofNat n)) = UInt8.ofNat n := by
    decide +kernel
  simpa using this ⟨value.toNat, value.toNat_lt⟩

/-- What an address field says about the sector after it. -/
structure AddressField where
  volume : UInt8
  track : UInt8
  sector : UInt8
  deriving DecidableEq, Repr

namespace AddressField

/-- The exclusive or of the three bytes. -/
def checksum (address : AddressField) : UInt8 :=
  address.volume ^^^ address.track ^^^ address.sector

/-- The eight disk bytes of an address field. -/
def encode (address : AddressField) : Bytes 8 :=
  Bytes.ofList 8 <| [address.volume, address.track, address.sector, address.checksum].flatMap
    fun value => [oddBits value, evenBits value]

/-- Reads an address field from eight disk bytes. -/
def decode (field : Bytes 8) : Except DiskError AddressField :=
  let value (i : Nat) : UInt8 := joinBits (field.byte (2 * i)) (field.byte (2 * i + 1))
  let address : AddressField := ⟨value 0, value 1, value 2⟩
  if address.checksum = value 3 then .ok address
  else .error (.addressChecksum address.volume address.track address.sector)

theorem decode_encode (address : AddressField) : decode address.encode = .ok address := by
  simp [decode, encode, joinBits_oddBits_evenBits]

end AddressField

end Diskette.Gcr
