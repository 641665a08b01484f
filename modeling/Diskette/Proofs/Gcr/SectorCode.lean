import Diskette.Gcr.SixAndTwo

/-!
# Encoded sectors

What is read from a data field, and that a sector is read back from its disk bytes as it was
written. The values of a field are chained by exclusive or: each is the exclusive or of all the six
bits up to its place.

* `separate_of_forall_mem`: undoing the exclusive or gives the separated values.
* `decodeSector_of_forall_mem`, `decodeSector_of_notMem`: what is read from any field.
* `joinedByte_plainValue`: a byte is put together again from its high and its low bits.
* `decodeSector_encodeSector`: a sector is read back.
* `encodeSix_ne`: no disk byte of a sector is mistaken for the start of a prologue.
-/

namespace Diskette.Gcr

/-! ## Six bits -/

theorem and_63_of_lt {value : UInt8} (h : value < 64) : value &&& 0x3F = value := by
  have : ∀ n : Fin 64, UInt8.ofNat n &&& 0x3F = UInt8.ofNat n := by decide
  simpa using this ⟨value.toNat, h⟩

theorem swapLowBits_lt (value : UInt8) : swapLowBits value < 4 := by
  have : ∀ n : Fin 256, swapLowBits (UInt8.ofNat n) < 4 := by decide +kernel
  simpa using this ⟨value.toNat, value.toNat_lt⟩

/-- Three pairs of bits fit into six bits. -/
private theorem pairs_lt {u v w : UInt8} (hu : u < 4) (hv : v < 4) (hw : w < 4) :
    u ||| (v <<< 2) ||| (w <<< 4) < 64 := by
  have : ∀ u v w : Fin 4,
      UInt8.ofNat u ||| (UInt8.ofNat v <<< 2) ||| (UInt8.ofNat w <<< 4) < 64 := by decide
  simpa using this ⟨u.toNat, hu⟩ ⟨v.toNat, hv⟩ ⟨w.toNat, hw⟩

theorem plainValue_lt (sector : Sector) (i : Nat) : plainValue sector i < 64 := by
  unfold plainValue
  split
  · exact pairs_lt (swapLowBits_lt _) (swapLowBits_lt _) (swapLowBits_lt _)
  · have : ∀ n : Fin 256, UInt8.ofNat n >>> 2 < 64 := by decide +kernel
    simpa using this ⟨(sector.byte (i - 86)).toNat, UInt8.toNat_lt _⟩

theorem previousValue_lt (sector : Sector) (i : Nat) : previousValue sector i < 64 := by
  cases i with
  | zero => exact (by decide : (0 : UInt8) < 64)
  | succ i => exact plainValue_lt sector i

private theorem xor_lt {a b : UInt8} (ha : a < 64) (hb : b < 64) : a ^^^ b < 64 := by
  have h := Nat.xor_lt_two_pow (n := 6) (x := a.toNat) (y := b.toNat) ha hb
  rw [← UInt8.toNat_xor] at h
  exact h

/-- The last place of a sector has no value of its own. -/
theorem plainValue_last (sector : Sector) : plainValue sector 342 = 0 := by
  rw [plainValue, if_neg (by decide), Bytes.byte_of_le (by decide)]
  rfl

/-! ## Disk bytes -/

/-- The six bits that a disk byte stands for, zero for any other byte. -/
def sixBits (nibble : UInt8) : UInt8 := (decodeSix? nibble).getD 0

theorem decodeSix?_eq_none_iff {nibble : UInt8} : decodeSix? nibble = none ↔ nibble ∉ diskBytes := by
  rw [decodeSix?_eq, Option.map_eq_none_iff, List.idxOf?_eq_none_iff, Vector.mem_toList_iff]

theorem decodeSix?_of_mem {nibble : UInt8} (h : nibble ∈ diskBytes) :
    decodeSix? nibble = some (sixBits nibble) := by
  cases hn : decodeSix? nibble with
  | none => exact absurd h (decodeSix?_eq_none_iff.mp hn)
  | some value => rw [sixBits, hn, Option.getD_some]

theorem decodeNibble_of_mem {nibble : UInt8} (h : nibble ∈ diskBytes) :
    decodeNibble nibble = .ok (sixBits nibble) := by
  rw [decodeNibble, decodeSix?_of_mem h]

theorem decodeNibble_of_notMem {nibble : UInt8} (h : nibble ∉ diskBytes) :
    decodeNibble nibble = .error (.invalidNibble nibble) := by
  rw [decodeNibble, decodeSix?_eq_none_iff.mpr h]

theorem encodeSix_mem (value : UInt8) : encodeSix value ∈ diskBytes :=
  Vector.mem_iff_getElem.mpr ⟨value.toNat % 64, Nat.mod_lt _ (by decide), rfl⟩

/-- The first byte of a prologue stands for no six bits. -/
theorem encodeSix_ne (value : UInt8) : encodeSix value ≠ 0xD5 := fun h =>
  absurd (h ▸ encodeSix_mem value) (by decide +kernel)

theorem encodeSix_sixBits {nibble : UInt8} (h : nibble ∈ diskBytes) :
    encodeSix (sixBits nibble) = nibble :=
  encodeSix_of_decodeSix? (decodeSix?_of_mem h)

theorem sixBits_encodeSix (value : UInt8) : sixBits (encodeSix value) = value &&& 0x3F := by
  rw [sixBits, decodeSix?_encodeSix, Option.getD_some]

theorem sixBits_lt (nibble : UInt8) : sixBits nibble < 64 := by
  by_cases h : nibble ∈ diskBytes
  · rw [← encodeSix_sixBits h, sixBits_encodeSix]
    have : ∀ n : Fin 256, UInt8.ofNat n &&& 0x3F < 64 := by decide +kernel
    simpa using this ⟨(sixBits nibble).toNat, UInt8.toNat_lt _⟩
  · rw [sixBits, decodeSix?_eq_none_iff.mpr h]
    decide

/-! ## Undoing the exclusive or -/

/-- The exclusive or of the six bits at the first `n` places of a field. -/
def runningXor (field : Bytes 343) : (n : Nat) → UInt8
  | 0 => 0
  | n + 1 => runningXor field n ^^^ sixBits (field.byte n)

/-- The six bits at place `i` of a field, freed from those before them. -/
def separatedValue (field : Bytes 343) (i : Nat) : UInt8 := runningXor field (i + 1)

theorem runningXor_lt (field : Bytes 343) (n : Nat) : runningXor field n < 64 := by
  induction n with
  | zero => exact (by decide : (0 : UInt8) < 64)
  | succ n ih => exact xor_lt ih (sixBits_lt _)

theorem separatedValue_lt (field : Bytes 343) (i : Nat) : separatedValue field i < 64 :=
  runningXor_lt field (i + 1)

private theorem tabulate_succ (n : Nat) (f : Nat → UInt8) :
    (tabulate n f).push (f n) = tabulate (n + 1) f := by
  refine ext_byteAt (by rw [ByteArray.size_push, size_tabulate, size_tabulate]) fun i _ => ?_
  rw [byteAt_push, size_tabulate, byteAt_tabulate, byteAt_tabulate]
  grind

private theorem separate_from {field : Bytes 343} (count : Nat) :
    ∀ i, (∀ k, k < i + count → field.byte k ∈ diskBytes) →
      separate field count i (runningXor field i) (tabulate i (separatedValue field)) =
        .ok (tabulate (i + count) (separatedValue field)) := by
  -- Before place `i` the accumulator is the running exclusive or, and its values are in the list.
  induction count with
  | zero => exact fun i _ => rfl
  | succ count ih =>
    intro i hfield
    have hpush := tabulate_succ i (separatedValue field)
    rw [separate, decodeNibble_of_mem (hfield i (by omega))]
    rw [separatedValue, runningXor] at hpush
    simp only [hpush]
    rw [← Nat.add_assoc, Nat.add_right_comm] at hfield ⊢
    exact ih (i + 1) hfield

/-- Of disk bytes the separated values are read. -/
theorem separate_of_forall_mem {field : Bytes 343} (h : ∀ k, k < 342 → field.byte k ∈ diskBytes) :
    separate field 342 0 0 (ByteArray.emptyWithCapacity 342) =
      .ok (tabulate 342 (separatedValue field)) := by
  have hall := separate_from 342 0 (by simpa using h)
  rwa [Nat.zero_add] at hall

/-- The first byte that is no disk byte ends the reading. -/
theorem separate_of_notMem {field : Bytes 343} {k : Nat} (h : field.byte k ∉ diskBytes)
    (count : Nat) : ∀ i (acc : UInt8) (values : ByteArray), i ≤ k → k < i + count →
      (∀ j, i ≤ j → j < k → field.byte j ∈ diskBytes) →
      separate field count i acc values = .error (.invalidNibble (field.byte k)) := by
  induction count with
  | zero => intro i _ _ hle hlt; omega
  | succ count ih =>
    intro i acc values hle hlt hbefore
    rw [separate]
    by_cases he : i = k
    · rw [he, decodeNibble_of_notMem h]
    · rw [decodeNibble_of_mem (hbefore i (by omega) (by omega))]
      exact ih (i + 1) _ _ (by omega) (by omega) fun j hj => hbefore j (by omega)

/-! ## Reading a field -/

/-- The sector that the separated values of a field make up. -/
def joinedSector (field : Bytes 343) : Sector :=
  Bytes.tabulate 256 (joinedByte (tabulate 342 (separatedValue field)))

/-- A field of disk bytes is read, and its checksum is right if the exclusive or of them all is
zero. -/
theorem decodeSector_of_forall_mem {field : Bytes 343}
    (h : ∀ i, i < 343 → field.byte i ∈ diskBytes) :
    decodeSector field = .ok ⟨joinedSector field, runningXor field 343 = 0⟩ := by
  have hcheck : byteAt (tabulate 342 (separatedValue field)) 341 = sixBits (field.byte 342) ↔
      runningXor field 343 = 0 := by
    rw [byteAt_tabulate, if_pos (by decide)]
    exact UInt8.xor_eq_zero_iff.symm
  rw [decodeSector, separate_of_forall_mem fun k hk => h k (by omega)]
  simp only [decodeNibble_of_mem (h 342 (by decide)), hcheck]
  rfl

/-- A field is refused for the first of its bytes that is no disk byte. -/
theorem decodeSector_of_notMem {field : Bytes 343} {k : Nat} (hk : k < 343)
    (h : field.byte k ∉ diskBytes) (hbefore : ∀ j, j < k → field.byte j ∈ diskBytes) :
    decodeSector field = .error (.invalidNibble (field.byte k)) := by
  rw [decodeSector]
  by_cases hlast : k = 342
  · subst hlast
    rw [separate_of_forall_mem hbefore]
    simp only [decodeNibble_of_notMem h]
  · rw [separate_of_notMem h 342 0 0 _ (Nat.zero_le k) (by omega) fun j _ => hbefore j]

/-- Exactly the fields of disk bytes are read. -/
theorem decodeSector_eq_ok_iff {field : Bytes 343} {decoded : DecodedSector} :
    decodeSector field = .ok decoded ↔ (∀ i, i < 343 → field.byte i ∈ diskBytes) ∧
      decoded = ⟨joinedSector field, runningXor field 343 = 0⟩ := by
  constructor
  · intro hok
    -- The first byte that is none would be the error.
    have hfield : ∀ i, i < 343 → field.byte i ∈ diskBytes := by
      intro i
      induction i using Nat.strongRecOn with
      | ind i ih =>
        intro hi
        refine Decidable.byContradiction fun h => ?_
        have := decodeSector_of_notMem hi h fun j hj => ih j hj (by omega)
        rw [hok] at this
        cases this
    rw [decodeSector_of_forall_mem hfield] at hok
    exact ⟨hfield, (Except.ok.inj hok).symm⟩
  · rintro ⟨hfield, rfl⟩
    exact decodeSector_of_forall_mem hfield

/-! ## Joining the bits -/

/-- Pair `k` of six bits, the lowest one first. -/
def pairAt (value : UInt8) (k : Fin 3) : UInt8 := (value >>> UInt8.ofNat (k * 2)) &&& 3

private theorem pairAt_or {u v w : UInt8} (hu : u < 4) (hv : v < 4) (hw : w < 4) (k : Fin 3) :
    pairAt (u ||| (v <<< 2) ||| (w <<< 4)) k = #v[u, v, w].get k := by
  have : ∀ (u v w : Fin 4) (k : Fin 3),
      pairAt (UInt8.ofNat u ||| (UInt8.ofNat v <<< 2) ||| (UInt8.ofNat w <<< 4)) k =
        #v[UInt8.ofNat u, UInt8.ofNat v, UInt8.ofNat w].get k := by
    decide
  simpa using this ⟨u.toNat, hu⟩ ⟨v.toNat, hv⟩ ⟨w.toNat, hw⟩ k

private theorem join_bits (value : UInt8) :
    ((value >>> 2) <<< 2) ||| swapLowBits (swapLowBits value) = value := by
  have : ∀ n : Fin 256, ((UInt8.ofNat n >>> 2) <<< 2) ||| swapLowBits (swapLowBits (UInt8.ofNat n)) =
      UInt8.ofNat n := by decide +kernel
  simpa using this ⟨value.toNat, value.toNat_lt⟩

/-- A byte is put together again from its plain values. -/
theorem joinedByte_plainValue {sector : Sector} {values : ByteArray}
    (h : ∀ k, k < 342 → byteAt values k = plainValue sector k) {i : Nat} (hi : i < 256) :
    joinedByte values i = sector.byte i := by
  have hhigh : byteAt values (86 + i) = sector.byte i >>> 2 := by
    rw [h _ (by omega), plainValue, if_neg (by omega), Nat.add_sub_cancel_left]
  have hlow : (byteAt values (i % 86) >>> UInt8.ofNat (i / 86 * 2)) &&& 3 =
      swapLowBits (sector.byte i) := by
    have hlt : i % 86 < 86 := Nat.mod_lt _ (by decide)
    rw [h _ (by omega), plainValue, if_pos hlt]
    have := pairAt_or (swapLowBits_lt (sector.byte (i % 86)))
      (swapLowBits_lt (sector.byte (i % 86 + 86))) (swapLowBits_lt (sector.byte (i % 86 + 172)))
      ⟨i / 86, by omega⟩
    rw [pairAt] at this
    rw [this]
    have hdiv := Nat.mod_add_div i 86
    rcases (by omega : i / 86 = 0 ∨ i / 86 = 1 ∨ i / 86 = 2) with hk | hk | hk
    · simp only [hk]
      rw [show i % 86 = i by omega]
      rfl
    · simp only [hk]
      rw [show i % 86 + 86 = i by omega]
      rfl
    · simp only [hk]
      rw [show i % 86 + 172 = i by omega]
      rfl
  rw [joinedByte, hhigh, hlow, join_bits]

/-! ## Encoded sectors -/

theorem sixBits_encodeSector (sector : Sector) {i : Nat} (h : i < 343) :
    sixBits ((encodeSector sector).byte i) = plainValue sector i ^^^ previousValue sector i := by
  rw [byte_encodeSector sector h, sixBits_encodeSix,
    and_63_of_lt (xor_lt (plainValue_lt sector i) (previousValue_lt sector i))]

theorem encodeSector_mem (sector : Sector) {i : Nat} (h : i < 343) :
    (encodeSector sector).byte i ∈ diskBytes := by
  rw [byte_encodeSector sector h]
  exact encodeSix_mem _

theorem runningXor_encodeSector (sector : Sector) {n : Nat} (h : n ≤ 343) :
    runningXor (encodeSector sector) n = previousValue sector n := by
  induction n with
  | zero => rfl
  | succ n ih =>
    rw [runningXor, ih (by omega), sixBits_encodeSector sector (by omega), UInt8.xor_comm,
      UInt8.xor_assoc, UInt8.xor_self, UInt8.xor_zero]
    rfl

/-- The separated values of an encoded sector are its plain values. -/
theorem separatedValue_encodeSector (sector : Sector) {i : Nat} (h : i < 343) :
    separatedValue (encodeSector sector) i = plainValue sector i :=
  runningXor_encodeSector sector h

/-- A sector is read back from its disk bytes, and its checksum is right. -/
theorem decodeSector_encodeSector (sector : Sector) :
    decodeSector (encodeSector sector) = .ok ⟨sector, true⟩ := by
  have hjoined : joinedSector (encodeSector sector) = sector := by
    refine Bytes.ext_byte fun i hi => ?_
    rw [joinedSector, Bytes.byte_tabulate, if_pos hi]
    refine joinedByte_plainValue (fun k hk => ?_) hi
    rw [byteAt_tabulate, if_pos hk, separatedValue_encodeSector sector (by omega)]
  have hcheck : runningXor (encodeSector sector) 343 = 0 :=
    (runningXor_encodeSector sector (Nat.le_refl _)).trans (plainValue_last sector)
  rw [decodeSector_of_forall_mem fun i => encodeSector_mem sector, hjoined, hcheck]
  rfl

end Diskette.Gcr
