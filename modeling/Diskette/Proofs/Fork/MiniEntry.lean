import Diskette.Fork.Writing
import Diskette.Proofs.Bytes

/-!
# Mini entries

A mini entry has two bytes for each of the block numbers of a fork and three for its size. A number
that does not fit two bytes is refused; of a size that does not fit three the rest is dropped. An
entry can be written with any storage type, but a fork that is extended itself is never read.

* `Descriptor.packed`: the bytes of an entry.
* `toMini_eq_ok_iff`: what is refused.
* `parseMini_packed`: what is read back.
* `parseMini_eq_ok_iff`: the entries that are read are those of the descriptors that fit.
* `toMini_keeps`: what an entry keeps of its descriptor.
-/

namespace Diskette.Descriptor

variable {descriptor : Descriptor} {entry : Bytes 8}

/-! ## Writing -/

/-- The bytes of a mini entry, with the low bytes of each number. -/
def packed (descriptor : Descriptor) : Bytes 8 :=
  Bytes.ofList 8 <|
    [descriptor.storageType.code] ++ leBytes 2 descriptor.keyBlock ++
      leBytes 2 descriptor.blocksUsed ++ leBytes 3 descriptor.eof

theorem toMini_eq (descriptor : Descriptor) :
    descriptor.toMini =
      if 0x10000 ≤ descriptor.keyBlock then
        .error (.unsupported (.pointerTooLarge descriptor.keyBlock))
      else if 0x10000 ≤ descriptor.blocksUsed then
        .error (.unsupported (.pointerTooLarge descriptor.blocksUsed))
      else .ok descriptor.packed := by
  unfold toMini checkPointer
  by_cases hkey : descriptor.keyBlock < 0x10000
  · rw [if_pos hkey, if_neg (Nat.not_le.mpr hkey)]
    by_cases hused : descriptor.blocksUsed < 0x10000
    · rw [if_pos hused, if_neg (Nat.not_le.mpr hused)]
      rfl
    · rw [if_neg hused, if_pos (Nat.not_lt.mp hused)]
      rfl
  · rw [if_neg hkey, if_pos (Nat.not_lt.mp hkey)]
    rfl

/-- Nothing but a number of more than 16 bits is refused. -/
theorem toMini_eq_ok_iff :
    descriptor.toMini = .ok entry ↔
      descriptor.keyBlock < 0x10000 ∧ descriptor.blocksUsed < 0x10000 ∧
        descriptor.packed = entry := by
  rw [toMini_eq]
  split
  · simp; omega
  · split
    · simp; omega
    · next hkey hused => simp [Nat.not_le.mp hkey, Nat.not_le.mp hused]

/-! ## Reading -/

private theorem leNat_ofList {bytes : List UInt8} {offset count n : Nat} (hle : offset + count ≤ 8)
    (h : ∀ k, k < count → bytes[offset + k]?.getD 0 = (leBytes count n)[k]?.getD 0) :
    leNat (Bytes.ofList 8 bytes).data offset count = n % 256 ^ count := by
  refine leNat_of_leBytes fun k hk => ?_
  rw [← h k hk]
  have := Bytes.byte_ofList (n := 8) bytes (offset + k)
  rwa [if_pos (by omega)] at this

theorem byte_packed (descriptor : Descriptor) :
    descriptor.packed.byte 0 = descriptor.storageType.code := by
  rw [packed, Bytes.byte_ofList, if_pos (by decide)]
  rfl

theorem leNat_packed (descriptor : Descriptor) :
    leNat descriptor.packed.data 1 2 = descriptor.keyBlock % 0x10000 ∧
      leNat descriptor.packed.data 3 2 = descriptor.blocksUsed % 0x10000 ∧
      leNat descriptor.packed.data 5 3 = descriptor.eof % 0x1000000 := by
  refine ⟨leNat_ofList (by decide) fun k hk => ?_, leNat_ofList (by decide) fun k hk => ?_,
    leNat_ofList (by decide) fun k hk => ?_⟩ <;>
  · simp only [getD_append, List.length_append, length_leBytes, List.length_singleton]
    simp (disch := omega) only [if_pos, if_neg, Nat.add_sub_cancel_left]

/-- What was written is read back, with the numbers cut off where their bytes end. -/
theorem parseMini_packed (descriptor : Descriptor) :
    parseMini descriptor.packed =
      if descriptor.storageType = .extended then .error (.invalidStorageType 5)
      else .ok ⟨descriptor.storageType, descriptor.keyBlock % 0x10000,
        descriptor.blocksUsed % 0x10000, descriptor.eof % 0x1000000⟩ := by
  obtain ⟨hkey, hused, heof⟩ := descriptor.leNat_packed
  unfold parseMini
  rw [byte_packed, StorageType.ofCode_code, hkey, hused, heof]
  cases descriptor.storageType <;> rfl

/-- A mini entry is read back, if its size fits. -/
theorem parseMini_toMini (h : descriptor.toMini = .ok entry)
    (he : descriptor.storageType ≠ .extended) (heof : descriptor.eof ≤ maxEof) :
    parseMini entry = .ok descriptor := by
  obtain ⟨hkey, hused, rfl⟩ := toMini_eq_ok_iff.mp h
  rw [parseMini_packed, if_neg he, Nat.mod_eq_of_lt hkey, Nat.mod_eq_of_lt hused,
    Nat.mod_eq_of_lt (Nat.lt_succ_of_le heof)]

/-! ## What is read is what was written -/

theorem code_eq_of_ofCode {code : UInt8} {storageType : StorageType}
    (h : StorageType.ofCode code = .ok storageType) : storageType.code = code := by
  unfold StorageType.ofCode at h
  grind [StorageType.code]

/-- An entry that is read consists of the bytes of what is read from it. -/
theorem packed_of_parseMini (h : parseMini entry = .ok descriptor) :
    descriptor.packed = entry ∧ descriptor.storageType ≠ .extended ∧
      descriptor.keyBlock < 0x10000 ∧ descriptor.blocksUsed < 0x10000 ∧
      descriptor.eof < 0x1000000 := by
  unfold parseMini at h
  split at h
  · cases h
  · cases h
  · next storageType hne hcode =>
    obtain rfl := Except.ok.inj h
    refine ⟨Bytes.ext_byte fun i hi => ?_, hne, leNat_lt _ _ 2, leNat_lt _ _ 2, leNat_lt _ _ 3⟩
    rw [packed, Bytes.byte_ofList, if_pos hi]
    have hbyte {offset count : Nat} (hlo : offset ≤ i) (hhi : i < offset + count) :
        (leBytes count (leNat entry.data offset count))[i - offset]?.getD 0 = entry.byte i := by
      rw [leBytes_leNat, List.getElem?_map, List.getElem?_range' (by omega), Nat.one_mul,
        Nat.add_sub_cancel' hlo]
      rfl
    simp only [getD_append, List.length_append, length_leBytes, List.length_singleton]
    split
    · split
      · split
        · obtain rfl : i = 0 := by omega
          exact code_eq_of_ofCode hcode
        · exact hbyte (by omega) (by omega)
      · exact hbyte (by omega) (by omega)
    · exact hbyte (by omega) (by omega)

/-- The entries that are read are those that were written of a fork that fits: one that is not
extended, and of at most `maxEof` bytes. -/
theorem parseMini_eq_ok_iff :
    parseMini entry = .ok descriptor ↔
      descriptor.toMini = .ok entry ∧ descriptor.storageType ≠ .extended ∧
        descriptor.eof < 0x1000000 := by
  constructor
  · intro h
    obtain ⟨hpacked, hne, hkey, hused, heof⟩ := packed_of_parseMini h
    exact ⟨toMini_eq_ok_iff.mpr ⟨hkey, hused, hpacked⟩, hne, heof⟩
  · rintro ⟨h, hne, heof⟩
    exact parseMini_toMini h hne (Nat.le_of_lt_succ heof)

/-- What an entry keeps of its descriptor. Block numbers of more than 16 bits are refused. A size of
more than 24 bits is not: its low bits are stored and read as the size. Nor is an extended fork,
whose entry is not read at all. All other descriptors come back as they were. -/
theorem toMini_keeps (descriptor : Descriptor) :
    match descriptor.toMini with
    | .error e => ∃ number, (number = descriptor.keyBlock ∨ number = descriptor.blocksUsed) ∧
        0x10000 ≤ number ∧ e = .unsupported (.pointerTooLarge number)
    | .ok entry => descriptor.keyBlock < 0x10000 ∧ descriptor.blocksUsed < 0x10000 ∧
        parseMini entry =
          (if descriptor.storageType = .extended then .error (.invalidStorageType 5)
          else .ok { descriptor with eof := descriptor.eof % 0x1000000 }) ∧
        (parseMini entry = .ok descriptor ↔
          descriptor.storageType ≠ .extended ∧ descriptor.eof < 0x1000000) := by
  cases h : descriptor.toMini with
  | error e =>
    rw [toMini_eq] at h
    split at h
    · next hkey => exact ⟨_, .inl rfl, hkey, (Except.error.inj h).symm⟩
    · split at h
      · next hused => exact ⟨_, .inr rfl, hused, (Except.error.inj h).symm⟩
      · cases h
  | ok entry =>
    obtain ⟨hkey, hused, rfl⟩ := toMini_eq_ok_iff.mp h
    refine ⟨hkey, hused, ?_, ?_⟩
    · rw [parseMini_packed, Nat.mod_eq_of_lt hkey, Nat.mod_eq_of_lt hused]
    · rw [parseMini_eq_ok_iff, h]
      simp

example :
    (toMini ⟨.seedling, 1, 1, 0x1000000⟩).bind parseMini = .ok ⟨.seedling, 1, 1, 0⟩ := by
  decide +kernel

end Diskette.Descriptor
