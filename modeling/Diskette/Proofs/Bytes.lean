import Diskette.Bytes.Number
import Mathlib.Algebra.Ring.Nat

/-!
# Byte strings, lists and numbers

The bytes of a byte string as a list, and numbers that were written into one.

* `getD_toList`, `Bytes.toList_ofSlice`: the elements of the list are the bytes.
* `slice_overwrite_self`, `slice_congr`: a slice of what was written, and one of what was not.
* `overwrite_overwrite`: of two writes at one place the second one counts.
* `leNat_of_leBytes`, `beNat_of_beBytes`: a number is read back where its bytes are.
* `leBytes_leNat`: and it is written as the bytes that it was read from.
-/

namespace Diskette

/-- An element of a list of bytes, zero past the end. -/
theorem getD_append (a b : List UInt8) (i : Nat) :
    (a ++ b)[i]?.getD 0 = if i < a.length then a[i]?.getD 0 else b[i - a.length]?.getD 0 := by
  rw [List.getElem?_append]
  split <;> rfl

private theorem toList_loop (data : ByteArray) (count : Nat) :
    ∀ (i : Nat) (acc : List UInt8), i + count = data.size →
      ByteArray.toList.loop data i acc = acc.reverse ++ data.data.toList.drop i := by
  induction count with
  | zero =>
    intro i acc h
    have hlen : data.data.toList.length ≤ i := by
      rw [Array.length_toList]
      exact Nat.le_of_eq (by rw [← ByteArray.size_data] at h; omega)
    rw [ByteArray.toList.loop, if_neg (by omega), List.drop_eq_nil_of_le hlen, List.append_nil]
  | succ count ih =>
    intro i acc h
    have hlt : i < data.data.toList.length := by
      rw [Array.length_toList, ByteArray.size_data]
      omega
    have hget : data.get! i = data.data.toList[i] := by
      obtain ⟨bytes⟩ := data
      rw [Array.length_toList] at hlt
      exact getElem!_pos bytes i hlt
    rw [ByteArray.toList.loop, if_pos (by omega), ih (i + 1) _ (by omega), List.reverse_cons,
      List.append_assoc, hget, List.singleton_append, ← List.drop_eq_getElem_cons hlt]

theorem toList_eq (data : ByteArray) : data.toList = data.data.toList := by
  rw [ByteArray.toList, toList_loop data data.size 0 [] (by omega)]
  rfl

/-- The elements of the list of a byte string are its bytes. -/
theorem getD_toList (data : ByteArray) (i : Nat) : data.toList[i]?.getD 0 = byteAt data i := by
  rw [toList_eq]
  by_cases h : i < data.size
  · have h' : i < data.data.toList.length := h
    rw [byteAt_of_lt h, List.getElem?_eq_getElem h']
    rfl
  · have h' : data.data.toList.length ≤ i := Nat.not_lt.mp h
    rw [byteAt_of_size_le (Nat.not_lt.mp h), List.getElem?_eq_none h']
    rfl

@[simp] theorem length_toList (data : ByteArray) : data.toList.length = data.size := by
  rw [toList_eq, Array.length_toList, ByteArray.size_data]

/-- The list of a slice of fixed length. -/
theorem Bytes.toList_ofSlice (n : Nat) (data : ByteArray) (offset : Nat) :
    (Bytes.ofSlice n data offset).data.toList = (List.range' offset n).map (byteAt data) := by
  have hlength : (Bytes.ofSlice n data offset).data.toList.length = n := by
    rw [length_toList, Bytes.size_data]
  refine List.ext_getElem (by simp [hlength]) fun i hi _ => ?_
  have hbyte := Bytes.byte_ofSlice (n := n) data offset i
  rw [if_pos (hlength ▸ hi), Bytes.byte, ← getD_toList, List.getElem?_eq_getElem hi,
    Option.getD_some] at hbyte
  simp [hbyte]

/-! ## Slices after a write -/

theorem Bytes.byte_overwrite {n : Nat} (b : Bytes n) (offset : Nat) (src : ByteArray) {i : Nat}
    (hi : i < n) : (b.overwrite offset src).byte i =
      if offset ≤ i ∧ i < offset + src.size then byteAt src (i - offset) else b.byte i := by
  rw [Bytes.overwrite, Bytes.byte_ofSlice, if_pos hi, Nat.zero_add, byteAt_overwrite]
  rfl

theorem slice_overwrite_self {data src : ByteArray} {offset : Nat}
    (h : offset + src.size ≤ data.size) :
    slice (overwrite data offset src) offset src.size = src := by
  refine ext_byteAt ?_ fun i hi => ?_
  · rw [size_slice, size_overwrite]
    split
    · omega
    · omega
  · have hlt : i < src.size := by
      rw [size_slice] at hi
      omega
    rw [byteAt_slice, if_pos hlt, byteAt_overwrite, if_pos (by omega), Nat.add_sub_cancel_left]

/-- A slice is left alone when nothing in it was changed. -/
theorem slice_congr {a b : ByteArray} {offset len : Nat} (hs : a.size = b.size)
    (h : ∀ i, offset ≤ i → i < offset + len → byteAt a i = byteAt b i) :
    slice a offset len = slice b offset len := by
  refine ext_byteAt (by rw [size_slice, size_slice, hs]) fun i hi => ?_
  rw [size_slice] at hi
  rw [byteAt_slice, byteAt_slice, h _ (by omega) (by omega)]

private theorem mod_pow_succ (n count : Nat) :
    n % 256 ^ (count + 1) = n % 256 + 256 * (n / 256 % 256 ^ count) := by
  rw [Nat.pow_succ', Nat.mod_mul]

/-- A number that was written little-endian is read back. -/
theorem leNat_of_leBytes {data : ByteArray} {count offset n : Nat}
    (h : ∀ k, k < count → byteAt data (offset + k) = (leBytes count n)[k]?.getD 0) :
    leNat data offset count = n % 256 ^ count := by
  induction count generalizing offset n with
  | zero => simp [leNat, Nat.mod_one]
  | succ count ih =>
    have hfirst : byteAt data offset = UInt8.ofNat n := h 0 (Nat.succ_pos _)
    have hrest : leNat data (offset + 1) count = n / 256 % 256 ^ count := by
      refine ih fun k hk => ?_
      rw [Nat.add_right_comm, Nat.add_assoc]
      exact h (k + 1) (Nat.succ_lt_succ hk)
    rw [leNat, hfirst, hrest, UInt8.toNat_ofNat', mod_pow_succ]

/-- The bytes of a number that was read little-endian are those that it was read from. -/
theorem leBytes_leNat (data : ByteArray) (count : Nat) : ∀ offset,
    leBytes count (leNat data offset count) = (List.range' offset count).map (byteAt data) := by
  induction count with
  | zero => exact fun _ => rfl
  | succ count ih =>
    intro offset
    have hlt := (byteAt data offset).toNat_lt
    have hfirst : UInt8.ofNat (leNat data offset (count + 1)) = byteAt data offset := by
      apply UInt8.toNat_inj.mp
      rw [UInt8.toNat_ofNat', leNat]
      omega
    have hrest : leNat data offset (count + 1) / 256 = leNat data (offset + 1) count := by
      rw [leNat]
      omega
    rw [leBytes, hfirst, hrest, ih, List.range'_succ, List.map_cons]

/-- A number is what its bytes make it. -/
theorem leNat_congr {a b : ByteArray} {count : Nat} : ∀ {offset : Nat},
    (∀ i, offset ≤ i → i < offset + count → byteAt a i = byteAt b i) →
      leNat a offset count = leNat b offset count := by
  induction count with
  | zero => exact fun _ => rfl
  | succ count ih =>
    intro offset h
    rw [leNat, leNat, h offset (Nat.le_refl _) (by omega),
      ih fun i hlo hhi => h i (by omega) (by omega)]

theorem beNat_congr {a b : ByteArray} {offset count : Nat}
    (h : ∀ i, offset ≤ i → i < offset + count → byteAt a i = byteAt b i) :
    beNat a offset count = beNat b offset count := by
  induction count with
  | zero => rfl
  | succ count ih =>
    rw [beNat, beNat, h _ (Nat.le_add_right _ _) (Nat.lt_succ_self _),
      ih fun i hlo hhi => h i hlo (Nat.lt_succ_of_lt hhi)]

/-- A number that was written big-endian is read back. -/
theorem beNat_of_beBytes {data : ByteArray} {count offset n : Nat}
    (h : ∀ k, k < count → byteAt data (offset + k) = (beBytes count n)[k]?.getD 0) :
    beNat data offset count = n % 256 ^ count := by
  induction count generalizing n with
  | zero => simp [beNat, Nat.mod_one]
  | succ count ih =>
    have hsplit : beBytes (count + 1) n = beBytes count (n / 256) ++ [UInt8.ofNat n] := by
      simp [beBytes, leBytes]
    have hlast : byteAt data (offset + count) = UInt8.ofNat n := by
      rw [h count (Nat.lt_succ_self _), hsplit, getD_append, length_beBytes, if_neg (Nat.lt_irrefl _),
        Nat.sub_self]
      rfl
    have hrest : beNat data offset count = n / 256 % 256 ^ count := by
      refine ih fun k hk => ?_
      rw [h k (Nat.lt_succ_of_lt hk), hsplit, getD_append, length_beBytes, if_pos hk]
    rw [beNat, hlast, hrest, UInt8.toNat_ofNat', mod_pow_succ, Nat.add_comm]

end Diskette
