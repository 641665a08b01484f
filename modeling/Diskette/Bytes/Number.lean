import Diskette.Bytes

/-!
# Numbers in byte strings

Headers and index nodes store numbers of two to four bytes, the least significant byte first
(little-endian) or last (big-endian).

* `leNat_lt`: a number of `count` bytes is below power `count` of 256.
* `length_leBytes`, `length_beBytes`: a number written in `count` bytes takes `count` bytes.
-/

namespace Diskette

/-- The little-endian number in the `count` bytes of `data` from `offset` on. -/
def leNat (data : ByteArray) (offset : Nat) : (count : Nat) → Nat
  | 0 => 0
  | count + 1 => (byteAt data offset).toNat + 256 * leNat data (offset + 1) count

/-- The big-endian number in the `count` bytes of `data` from `offset` on. -/
def beNat (data : ByteArray) (offset : Nat) : (count : Nat) → Nat
  | 0 => 0
  | count + 1 => 256 * beNat data offset count + (byteAt data (offset + count)).toNat

/-- The `count` low bytes of a number, the least significant first. -/
def leBytes : (count : Nat) → Nat → List UInt8
  | 0, _ => []
  | count + 1, n => UInt8.ofNat n :: leBytes count (n / 256)

/-- The `count` low bytes of a number, the most significant first. -/
def beBytes (count n : Nat) : List UInt8 := (leBytes count n).reverse

@[simp] theorem length_leBytes (count n : Nat) : (leBytes count n).length = count := by
  induction count generalizing n with
  | zero => rfl
  | succ count ih => simp [leBytes, ih]

@[simp] theorem length_beBytes (count n : Nat) : (beBytes count n).length = count := by
  simp [beBytes]

theorem leNat_lt (data : ByteArray) (offset count : Nat) :
    leNat data offset count < Nat.pow 256 count := by
  induction count generalizing offset with
  | zero => simp [leNat]
  | succ count ih =>
    have h1 := ih (offset + 1)
    have h2 := (byteAt data offset).toNat_lt
    rw [leNat]
    change _ < Nat.pow 256 count * 256
    omega

end Diskette
