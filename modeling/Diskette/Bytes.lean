/-!
# Byte strings

Byte strings of any length are `ByteArray`s and are looked at through `byteAt`, which is zero past
the end. `Bytes n` is the type of byte strings of exactly `n` bytes: a block is 512 of them, a
sector 256.

* `byteAt_tabulate`, `byteAt_overwrite`: what the two ways of building a byte string hold.
* `ext_byteAt`, `Bytes.ext_byte`: two byte strings of one length are equal if their bytes are.
* `Bytes.byte_tabulate`, `Bytes.byte_ofSlice`: the bytes of a fixed-length byte string.
-/

namespace Diskette

/-- Byte `i` of `data`, zero past the end. -/
def byteAt (data : ByteArray) (i : Nat) : UInt8 :=
  if h : i < data.size then data[i] else 0

theorem byteAt_of_lt {data : ByteArray} {i : Nat} (h : i < data.size) :
    byteAt data i = data[i] := by
  simp [byteAt, h]

theorem byteAt_of_size_le {data : ByteArray} {i : Nat} (h : data.size ≤ i) : byteAt data i = 0 := by
  simp [byteAt, Nat.not_lt.mpr h]

/-- Two byte strings of one length are equal if their bytes are. -/
theorem ext_byteAt {a b : ByteArray} (hs : a.size = b.size)
    (h : ∀ i, i < a.size → byteAt a i = byteAt b i) : a = b := by
  refine ByteArray.ext_getElem hs fun i ha hb => ?_
  have := h i ha
  rwa [byteAt_of_lt ha, byteAt_of_lt hb] at this

/-! ## Building -/

/-- `acc` followed by `f i, f (i + 1), …`, `count` bytes in all. -/
@[specialize] def appendTabulated (f : Nat → UInt8) :
    (count i : Nat) → (acc : ByteArray) → ByteArray
  | 0, _, acc => acc
  | count + 1, i, acc => appendTabulated f count (i + 1) (acc.push (f i))

/-- The byte string `f 0, f 1, …, f (n - 1)`. -/
@[inline] def tabulate (n : Nat) (f : Nat → UInt8) : ByteArray :=
  appendTabulated f n 0 (ByteArray.emptyWithCapacity n)

/-- A byte string of `n` zeros. -/
def zeros (n : Nat) : ByteArray := tabulate n fun _ => 0

theorem size_appendTabulated (f : Nat → UInt8) (count i : Nat) (acc : ByteArray) :
    (appendTabulated f count i acc).size = acc.size + count := by
  induction count generalizing i acc with
  | zero => rfl
  | succ count ih => rw [appendTabulated, ih, ByteArray.size_push]; omega

theorem byteAt_push (acc : ByteArray) (b : UInt8) (i : Nat) :
    byteAt (acc.push b) i = if i = acc.size then b else byteAt acc i := by
  by_cases hi : i < acc.size
  · have hne : i ≠ acc.size := by omega
    rw [byteAt_of_lt (by rw [ByteArray.size_push]; omega), byteAt_of_lt hi, if_neg hne]
    exact Array.getElem_push_lt hi
  · by_cases he : i = acc.size
    · subst he
      rw [byteAt_of_lt (by rw [ByteArray.size_push]; omega), if_pos rfl]
      exact Array.getElem_push_eq
    · rw [byteAt_of_size_le (by rw [ByteArray.size_push]; omega),
        byteAt_of_size_le (by omega), if_neg he]

theorem byteAt_appendTabulated (f : Nat → UInt8) (count i : Nat) (acc : ByteArray) (k : Nat) :
    byteAt (appendTabulated f count i acc) k =
      if k < acc.size then byteAt acc k
      else if k < acc.size + count then f (i + (k - acc.size)) else 0 := by
  induction count generalizing i acc with
  | zero =>
    rw [appendTabulated, Nat.add_zero]
    split
    · rfl
    · next h => rw [byteAt_of_size_le (by omega)]
  | succ count ih =>
    rw [appendTabulated, ih, ByteArray.size_push, byteAt_push]
    by_cases h1 : k < acc.size
    · simp [h1, show k < acc.size + 1 by omega, show k ≠ acc.size by omega]
    · by_cases h2 : k = acc.size
      · subst h2; simp
      · have h3 : ¬ k < acc.size + 1 := by omega
        simp only [h1, h3, if_false]
        by_cases h4 : k < acc.size + 1 + count
        · rw [if_pos h4, if_pos (by omega)]
          congr 1; omega
        · rw [if_neg h4, if_neg (by omega)]

private theorem size_emptyWithCapacity (n : Nat) : (ByteArray.emptyWithCapacity n).size = 0 := rfl

@[simp] theorem size_tabulate (n : Nat) (f : Nat → UInt8) : (tabulate n f).size = n := by
  simp [tabulate, size_appendTabulated, size_emptyWithCapacity]

@[simp] theorem byteAt_tabulate (n : Nat) (f : Nat → UInt8) (i : Nat) :
    byteAt (tabulate n f) i = if i < n then f i else 0 := by
  simp [tabulate, byteAt_appendTabulated, size_emptyWithCapacity]

@[simp] theorem size_zeros (n : Nat) : (zeros n).size = n := size_tabulate ..

@[simp] theorem byteAt_zeros (n i : Nat) : byteAt (zeros n) i = 0 := by
  simp [zeros]

/-! ## Slices -/

/-- The `len` bytes of `data` from `offset` on, fewer when `data` ends earlier. -/
def slice (data : ByteArray) (offset len : Nat) : ByteArray := data.extract offset (offset + len)

theorem size_slice (data : ByteArray) (offset len : Nat) :
    (slice data offset len).size = min (offset + len) data.size - offset := by
  simp [slice]

theorem byteAt_slice (data : ByteArray) (offset len i : Nat) :
    byteAt (slice data offset len) i = if i < len then byteAt data (offset + i) else 0 := by
  have hs := size_slice data offset len
  by_cases hi : i < (slice data offset len).size
  · rw [byteAt_of_lt hi, if_pos (by omega), byteAt_of_lt (by omega)]
    exact ByteArray.getElem_extract hi
  · rw [byteAt_of_size_le (by omega)]
    split
    · rw [byteAt_of_size_le (by omega)]
    · rfl

theorem byteAt_append (a b : ByteArray) (i : Nat) :
    byteAt (a ++ b) i = if i < a.size then byteAt a i else byteAt b (i - a.size) := by
  by_cases hi : i < a.size
  · rw [if_pos hi, byteAt_of_lt (by rw [ByteArray.size_append]; omega), byteAt_of_lt hi,
      ByteArray.getElem_append_left hi]
  · rw [if_neg hi]
    by_cases hb : i - a.size < b.size
    · rw [byteAt_of_lt (by rw [ByteArray.size_append]; omega), byteAt_of_lt hb,
        ByteArray.getElem_append_right (by omega)]
    · rw [byteAt_of_size_le (by rw [ByteArray.size_append]; omega), byteAt_of_size_le (by omega)]

theorem byteAt_toByteArray (bytes : List UInt8) (i : Nat) :
    byteAt bytes.toByteArray i = bytes[i]?.getD 0 := by
  by_cases h : i < bytes.length
  · rw [byteAt_of_lt (by rwa [List.size_toByteArray]), List.getElem_toByteArray]
    simp [h]
  · rw [byteAt_of_size_le (by rw [List.size_toByteArray]; omega)]
    simp [h]

/-- `dest` with `src` written over it from `offset` on. A gap before `offset` is filled with zeros,
unless there is nothing to write. -/
def overwrite (dest : ByteArray) (offset : Nat) (src : ByteArray) : ByteArray :=
  if offset ≤ dest.size then src.copySlice 0 dest offset src.size
  else if src.size = 0 then dest
  else src.copySlice 0 (dest ++ zeros (offset - dest.size)) offset src.size

private theorem size_copySlice_all (src dest : ByteArray) (offset : Nat) (h : offset ≤ dest.size) :
    (src.copySlice 0 dest offset src.size).size = max dest.size (offset + src.size) := by
  simp [ByteArray.copySlice_eq_append]
  omega

private theorem byteAt_copySlice_all (src dest : ByteArray) (offset i : Nat)
    (h : offset ≤ dest.size) :
    byteAt (src.copySlice 0 dest offset src.size) i =
      if offset ≤ i ∧ i < offset + src.size then byteAt src (i - offset) else byteAt dest i := by
  have h1 : src.copySlice 0 dest offset src.size =
      slice dest 0 offset ++ (src ++ slice dest (offset + src.size) dest.size) := by
    simp only [ByteArray.copySlice_eq_append, slice, Nat.zero_add, Nat.sub_zero,
      ByteArray.append_assoc, ByteArray.extract_zero_size]
    congr 2
    apply ByteArray.ext_getElem
    · simp
    · intro j _ _
      have hm : min src.size src.data.size = src.size := Nat.min_self _
      simp only [ByteArray.getElem_extract, hm]
  have h2 : (slice dest 0 offset).size = offset := by rw [size_slice]; omega
  rw [h1, byteAt_append, byteAt_append, h2, byteAt_slice, byteAt_slice]
  by_cases hi : i < offset
  · simp [hi, show ¬ (offset ≤ i ∧ i < offset + src.size) by omega]
  · by_cases hj : i < offset + src.size
    · simp [hi, show i - offset < src.size by omega,
        show offset ≤ i ∧ i < offset + src.size by omega]
    · rw [if_neg hi, if_neg (by omega), if_neg (by omega : ¬ (offset ≤ i ∧ i < offset + src.size)),
        show offset + src.size + (i - offset - src.size) = i by omega]
      split
      · rfl
      · rw [byteAt_of_size_le (by omega)]

theorem size_overwrite (dest : ByteArray) (offset : Nat) (src : ByteArray) :
    (overwrite dest offset src).size =
      if src.size = 0 then dest.size else max dest.size (offset + src.size) := by
  unfold overwrite
  split
  · next h =>
    rw [size_copySlice_all _ _ _ h]
    split
    · omega
    · rfl
  · split
    · rfl
    · rw [size_copySlice_all _ _ _ (by simp; omega)]
      simp; omega

/-- Overwriting changes the bytes written over and no other. -/
theorem byteAt_overwrite (dest : ByteArray) (offset : Nat) (src : ByteArray) (i : Nat) :
    byteAt (overwrite dest offset src) i =
      if offset ≤ i ∧ i < offset + src.size then byteAt src (i - offset) else byteAt dest i := by
  unfold overwrite
  split
  · next h => exact byteAt_copySlice_all _ _ _ _ h
  · split
    · next h => rw [if_neg (by omega)]
    · rw [byteAt_copySlice_all _ _ _ _ (by simp; omega), byteAt_append]
      congr 1
      split
      · rfl
      · rw [byteAt_zeros, byteAt_of_size_le (by omega)]

/-! ## Byte strings of a fixed length -/

/-- A byte string of exactly `n` bytes. -/
structure Bytes (n : Nat) where
  /-- The bytes. -/
  data : ByteArray
  size_data : data.size = n

/-- The unit of every device. -/
abbrev Block := Bytes 512

/-- Half a block, the unit of a 5.25-inch track. -/
abbrev Sector := Bytes 256

namespace Bytes

variable {n : Nat}

theorem ext_data {a b : Bytes n} (h : a.data = b.data) : a = b := by
  obtain ⟨a, ha⟩ := a
  obtain ⟨b, hb⟩ := b
  congr

instance : DecidableEq (Bytes n) := fun a b =>
  match ByteArray.instDecidableEq a.data b.data with
  | isTrue h => isTrue (ext_data h)
  | isFalse h => isFalse fun e => h (congrArg Bytes.data e)

/-- Byte `i`, zero past the end. -/
def byte (b : Bytes n) (i : Nat) : UInt8 := byteAt b.data i

theorem ext_byte {a b : Bytes n} (h : ∀ i, i < n → a.byte i = b.byte i) : a = b := by
  exact ext_data (ext_byteAt (a.size_data.trans b.size_data.symm) fun i hi =>
    h i (a.size_data ▸ hi))

theorem byte_of_le {b : Bytes n} {i : Nat} (h : n ≤ i) : b.byte i = 0 :=
  byteAt_of_size_le (by rw [b.size_data]; exact h)

/-- The bytes `f 0, …, f (n - 1)`. -/
@[inline] def tabulate (n : Nat) (f : Nat → UInt8) : Bytes n :=
  ⟨Diskette.tabulate n f, size_tabulate n f⟩

@[simp] theorem byte_tabulate (f : Nat → UInt8) (i : Nat) :
    (tabulate n f).byte i = if i < n then f i else 0 := byteAt_tabulate n f i

/-- `n` zeros. -/
def zero (n : Nat) : Bytes n := ⟨zeros n, size_zeros n⟩

@[simp] theorem byte_zero (i : Nat) : (zero n).byte i = 0 := byteAt_zeros n i

/-- The `n` bytes of `data` from `offset` on, with zeros past its end. -/
def ofSlice (n : Nat) (data : ByteArray) (offset : Nat) : Bytes n :=
  if h : (slice data offset n).size = n then ⟨slice data offset n, h⟩
  else tabulate n fun i => byteAt data (offset + i)

@[simp] theorem byte_ofSlice (data : ByteArray) (offset i : Nat) :
    (ofSlice n data offset).byte i = if i < n then byteAt data (offset + i) else 0 := by
  unfold ofSlice
  split
  · exact byteAt_slice data offset n i
  · simp

/-- The first `n` bytes of a list, with zeros past its end. -/
def ofList (n : Nat) (bytes : List UInt8) : Bytes n := ofSlice n bytes.toByteArray 0

@[simp] theorem byte_ofList (bytes : List UInt8) (i : Nat) :
    (ofList n bytes).byte i = if i < n then bytes[i]?.getD 0 else 0 := by
  simp [ofList, byteAt_toByteArray]

/-- `b` with `src` written over it from `offset` on; what does not fit is dropped. -/
def overwrite (b : Bytes n) (offset : Nat) (src : ByteArray) : Bytes n :=
  ofSlice n (Diskette.overwrite b.data offset src) 0

/-- `a` followed by `b`. -/
def append {m : Nat} (a : Bytes m) (b : Bytes n) : Bytes (m + n) :=
  ⟨a.data ++ b.data, by rw [ByteArray.size_append, a.size_data, b.size_data]⟩

theorem byte_append {m : Nat} (a : Bytes m) (b : Bytes n) (i : Nat) :
    (a.append b).byte i = if i < m then a.byte i else b.byte (i - m) := by
  have := byteAt_append a.data b.data i
  rwa [a.size_data] at this

end Bytes

end Diskette
