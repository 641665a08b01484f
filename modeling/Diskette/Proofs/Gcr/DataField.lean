import Diskette.Proofs.Gcr.SectorCode
import Mathlib.Data.Set.Operations

/-!
# Data fields

Which data fields are those of a sector, and what becomes of one when a byte of it is changed.
Auxiliary values 84 and 85 gather the bits of two bytes only, as 3 * 86 is more than 256: encoding
leaves their two high bits clear and decoding does not look at them.

* `plainValue_joinedSector`: the plain values of the sector that is read are the separated ones.
* `encodeSector_eq_iff`: the data field of a sector is the one field with clear spare bits from which
  the sector is read with the right checksum.
* `encodeSector_bijection`: encoding and decoding are inverse to each other.
* `runningXor_of_eqOn`: one changed byte changes the exclusive or of all the bytes after it.
* `decodeSector_of_changed`: a changed byte is noticed.
-/

namespace Diskette.Gcr

/-! ## Fields of sectors -/

/-- The two high bits of the auxiliary values that gather the bits of two bytes only are clear. -/
structure SpareBitsClear (field : Bytes 343) : Prop where
  value84 : separatedValue field 84 &&& 0x30 = 0
  value85 : separatedValue field 85 &&& 0x30 = 0

/-- The last two auxiliary values lack a third byte. -/
theorem spareBitsClear_encodeSector (sector : Sector) : SpareBitsClear (encodeSector sector) := by
  have hpairs {u v : UInt8} (hu : u < 4) (hv : v < 4) :
      (u ||| (v <<< 2) ||| (swapLowBits 0 <<< 4)) &&& 0x30 = 0 := by
    have : ∀ u v : Fin 4,
        (UInt8.ofNat u ||| (UInt8.ofNat v <<< 2) ||| (swapLowBits 0 <<< 4)) &&& 0x30 = 0 := by
      decide
    simpa using this ⟨u.toNat, hu⟩ ⟨v.toNat, hv⟩
  have hvalue {i : Nat} (hlo : 84 ≤ i) (hhi : i < 86) :
      separatedValue (encodeSector sector) i &&& 0x30 = 0 := by
    rw [separatedValue_encodeSector sector (by omega), plainValue, if_pos hhi,
      Bytes.byte_of_le (b := sector) (by omega : 256 ≤ i + 172)]
    exact hpairs (swapLowBits_lt _) (swapLowBits_lt _)
  exact ⟨hvalue (by decide) (by decide), hvalue (by decide) (by decide)⟩

theorem byte_joinedSector (field : Bytes 343) {i : Nat} (h : i < 256) :
    (joinedSector field).byte i = (separatedValue field (86 + i) <<< 2) |||
      swapLowBits ((separatedValue field (i % 86) >>> UInt8.ofNat (i / 86 * 2)) &&& 3) := by
  have hlt : i % 86 < 86 := Nat.mod_lt _ (by decide)
  rw [joinedSector, Bytes.byte_tabulate, if_pos h, joinedByte, byteAt_tabulate, byteAt_tabulate,
    if_pos (by omega), if_pos (by omega)]

/-- The low bits of a byte are the pair that its auxiliary value has for it. -/
theorem swapLowBits_byte_joinedSector (field : Bytes 343) {i : Nat} (hi : i < 86) (k : Fin 3)
    (h : i + 86 * k < 256) :
    swapLowBits ((joinedSector field).byte (i + 86 * k)) = pairAt (separatedValue field i) k := by
  have hjoin {high : UInt8} (hhigh : high < 64) (low : UInt8) :
      swapLowBits ((high <<< 2) ||| swapLowBits (low &&& 3)) = low &&& 3 := by
    have hlow : low &&& 3 < 4 := by
      have : ∀ n : Fin 256, UInt8.ofNat n &&& 3 < 4 := by decide +kernel
      simpa using this ⟨low.toNat, low.toNat_lt⟩
    have : ∀ (n : Fin 64) (m : Fin 4),
        swapLowBits ((UInt8.ofNat n <<< 2) ||| swapLowBits (UInt8.ofNat m)) = UInt8.ofNat m := by
      decide +kernel
    simpa using this ⟨high.toNat, hhigh⟩ ⟨(low &&& 3).toNat, hlow⟩
  rw [byte_joinedSector field h, hjoin (separatedValue_lt field _), Nat.add_mul_mod_self_left,
    Nat.mod_eq_of_lt hi, Nat.add_mul_div_left i k (by decide), Nat.div_eq_of_lt hi, Nat.zero_add,
    pairAt]

/-- The high bits of a byte are its main value. -/
theorem byte_joinedSector_shiftRight (field : Bytes 343) {i : Nat} (h : i < 256) :
    (joinedSector field).byte i >>> 2 = separatedValue field (86 + i) := by
  have hjoin {high low : UInt8} (hhigh : high < 64) (hlow : low < 4) :
      ((high <<< 2) ||| low) >>> 2 = high := by
    have : ∀ (n : Fin 64) (m : Fin 4),
        ((UInt8.ofNat n <<< 2) ||| UInt8.ofNat m) >>> 2 = UInt8.ofNat n := by decide +kernel
    simpa using this ⟨high.toNat, hhigh⟩ ⟨low.toNat, hlow⟩
  rw [byte_joinedSector field h, hjoin (separatedValue_lt field _) (swapLowBits_lt _)]

/-- Six bits are put together again from their three pairs. -/
theorem joined_pairs {value : UInt8} (h : value < 64) :
    pairAt value 0 ||| (pairAt value 1 <<< 2) ||| (pairAt value 2 <<< 4) = value := by
  have : ∀ n : Fin 64, pairAt (UInt8.ofNat n) 0 ||| (pairAt (UInt8.ofNat n) 1 <<< 2) |||
      (pairAt (UInt8.ofNat n) 2 <<< 4) = UInt8.ofNat n := by decide +kernel
  simpa using this ⟨value.toNat, h⟩

/-- If the two high bits are clear, the last pair is the one of a missing byte. -/
theorem pairAt_two {value : UInt8} (h : value < 64) (hclear : value &&& 0x30 = 0) :
    pairAt value 2 = swapLowBits 0 := by
  have : ∀ n : Fin 64, UInt8.ofNat n &&& 0x30 = 0 →
      pairAt (UInt8.ofNat n) 2 = swapLowBits 0 := by decide +kernel
  simpa using this ⟨value.toNat, h⟩ (by simpa using hclear)

/-- The plain values of the sector that is read from a field are the separated values. The last place
stands for the checksum. -/
theorem plainValue_joinedSector {field : Bytes 343} (hclear : SpareBitsClear field)
    (hsum : runningXor field 343 = 0) {i : Nat} (h : i < 343) :
    plainValue (joinedSector field) i = separatedValue field i := by
  by_cases haux : i < 86
  · have hfirst := swapLowBits_byte_joinedSector field haux 0 (by simp; omega)
    have hsecond := swapLowBits_byte_joinedSector field haux 1 (by simp; omega)
    have hthird : swapLowBits ((joinedSector field).byte (i + 172)) =
        pairAt (separatedValue field i) 2 := by
      -- Places 84 and 85 have no third byte: nothing but the spare bits is in its stead.
      by_cases hin : i + 172 < 256
      · exact swapLowBits_byte_joinedSector field haux 2 hin
      · rw [Bytes.byte_of_le (by omega)]
        rcases (by omega : i = 84 ∨ i = 85) with rfl | rfl
        · exact (pairAt_two (separatedValue_lt field _) hclear.value84).symm
        · exact (pairAt_two (separatedValue_lt field _) hclear.value85).symm
    rw [plainValue, if_pos haux, hthird]
    refine .trans ?_ (joined_pairs (separatedValue_lt field i))
    rw [← hfirst, ← hsecond]
    rfl
  · rw [plainValue, if_neg haux]
    by_cases hlast : i = 342
    · rw [hlast, Bytes.byte_of_le (by decide)]
      exact hsum.symm
    · rw [byte_joinedSector_shiftRight field (by omega), Nat.add_sub_cancel' (by omega)]

/-- A field with clear spare bits and the right checksum is the one of the sector that is read. -/
theorem encodeSector_joinedSector {field : Bytes 343}
    (hfield : ∀ i, i < 343 → field.byte i ∈ diskBytes) (hclear : SpareBitsClear field)
    (hsum : runningXor field 343 = 0) : encodeSector (joinedSector field) = field := by
  have hprevious {i : Nat} (h : i < 343) :
      previousValue (joinedSector field) i = runningXor field i := by
    cases i with
    | zero => rfl
    | succ i => exact plainValue_joinedSector hclear hsum (by omega)
  -- The exclusive or of neighbours undoes the running one and leaves the six bits of the byte.
  refine Bytes.ext_byte fun i hi => ?_
  rw [byte_encodeSector _ hi, plainValue_joinedSector hclear hsum hi, hprevious hi, separatedValue,
    runningXor, UInt8.xor_comm, ← UInt8.xor_assoc, UInt8.xor_self, UInt8.zero_xor,
    encodeSix_sixBits (hfield i hi)]

/-- The data field of a sector is the one with clear spare bits from which the sector is read with
the right checksum. -/
theorem encodeSector_eq_iff {sector : Sector} {field : Bytes 343} :
    encodeSector sector = field ↔
      decodeSector field = .ok ⟨sector, true⟩ ∧ SpareBitsClear field := by
  constructor
  · rintro rfl
    exact ⟨decodeSector_encodeSector sector, spareBitsClear_encodeSector sector⟩
  · rintro ⟨hdecode, hclear⟩
    obtain ⟨hfield, hdecoded⟩ := decodeSector_eq_ok_iff.mp hdecode
    obtain ⟨hsector, hsum⟩ := DecodedSector.mk.inj hdecoded
    rw [hsector, encodeSector_joinedSector hfield hclear (of_decide_eq_true hsum.symm)]

/-- Encoding is a bijection between the sectors and the fields with clear spare bits and the right
checksum, whose inverse is decoding. -/
theorem encodeSector_bijection :
    (∀ sector : Sector,
      (∀ i : Fin 343, (encodeSector sector).byte i ∈ diskBytes ∧
        (encodeSector sector).byte i ∉ [0xD5, 0xAA]) ∧
      decodeSector (encodeSector sector) = .ok ⟨sector, true⟩) ∧
    (∀ (sector : Sector) (field : Bytes 343), encodeSector sector = field ↔
      decodeSector field = .ok ⟨sector, true⟩ ∧ SpareBitsClear field) ∧
    Set.range encodeSector =
      {field | (∃ sector, decodeSector field = .ok ⟨sector, true⟩) ∧ SpareBitsClear field} := by
  refine ⟨fun sector => ⟨fun i => ?_, decodeSector_encodeSector sector⟩,
    fun _ _ => encodeSector_eq_iff, ?_⟩
  · have hmem := encodeSector_mem sector i.isLt
    have hnone : ∀ b ∈ ([0xD5, 0xAA] : List UInt8), b ∉ diskBytes := by decide +kernel
    exact ⟨hmem, fun hb => hnone _ hb hmem⟩
  · ext field
    rw [Set.mem_range, Set.mem_ofPred_eq, ← exists_and_right]
    exact exists_congr fun sector => encodeSector_eq_iff

/-! ## Changed bytes -/

/-- One changed byte changes the exclusive or of all the bytes after it by the same six bits. -/
theorem runningXor_of_eqOn {field field' : Bytes 343} {i : Nat}
    (h : ∀ k, k ≠ i → field'.byte k = field.byte k) (n : Nat) :
    runningXor field' n = runningXor field n ^^^
      if i < n then sixBits (field.byte i) ^^^ sixBits (field'.byte i) else 0 := by
  induction n with
  | zero => rw [if_neg (Nat.not_lt_zero i), UInt8.xor_zero]; rfl
  | succ n ih =>
    rw [runningXor, runningXor, ih]
    by_cases he : i = n
    · subst he
      rw [if_neg (Nat.lt_irrefl i), if_pos (Nat.lt_succ_self i), UInt8.xor_zero, UInt8.xor_assoc,
        ← UInt8.xor_assoc (sixBits (field.byte i)), UInt8.xor_self, UInt8.zero_xor]
    · rw [h n (Ne.symm he)]
      simp only [show i < n + 1 ↔ i < n by omega]
      rw [UInt8.xor_assoc, UInt8.xor_comm (ite ..), ← UInt8.xor_assoc]

/-- A field with the right checksum in which one disk byte was replaced by another one has a wrong
checksum. -/
theorem runningXor_ne_zero {field field' : Bytes 343} {i : Nat} (hi : i < 343)
    (h : ∀ k, k ≠ i → field'.byte k = field.byte k) (hne : field'.byte i ≠ field.byte i)
    (hmem : field.byte i ∈ diskBytes) (hmem' : field'.byte i ∈ diskBytes)
    (hsum : runningXor field 343 = 0) : runningXor field' 343 ≠ 0 := by
  rw [runningXor_of_eqOn h, hsum, if_pos hi, UInt8.zero_xor]
  intro hzero
  apply hne
  rw [← encodeSix_sixBits hmem, ← encodeSix_sixBits hmem', UInt8.xor_eq_zero_iff.mp hzero]

/-- Whatever byte of an encoded sector is changed, it is noticed: a byte that is no disk byte is an
error, and any other one makes the checksum wrong. -/
theorem decodeSector_of_changed (sector : Sector) (i : Fin 343) (x : UInt8)
    (hx : x ≠ (encodeSector sector).byte i) :
    let field : Bytes 343 := .tabulate 343 (Function.update (encodeSector sector).byte i x)
    (x ∉ diskBytes → decodeSector field = .error (.invalidNibble x)) ∧
      (x ∈ diskBytes → ∃ data, decodeSector field = .ok ⟨data, false⟩) := by
  intro field
  have hself : field.byte i = x := by
    rw [Bytes.byte_tabulate, if_pos i.isLt, Function.update_self]
  have hother (k : Nat) (hk : k ≠ i) : field.byte k = (encodeSector sector).byte k := by
    rw [Bytes.byte_tabulate, Function.update_of_ne hk]
    split
    · rfl
    · rw [Bytes.byte_of_le (by omega)]
  have hmem (k : Nat) (hk : k ≠ i) (hlt : k < 343) : field.byte k ∈ diskBytes := by
    rw [hother k hk]
    exact encodeSector_mem sector hlt
  refine ⟨fun hnot => ?_, fun hdisk => ?_⟩
  · rw [← hself] at hnot ⊢
    exact decodeSector_of_notMem i.isLt hnot fun j hj => hmem j (by omega) (by omega)
  · have hall (k : Nat) (hlt : k < 343) : field.byte k ∈ diskBytes := by
      by_cases he : k = i
      · rw [he, hself]
        exact hdisk
      · exact hmem k he hlt
    -- The checksum is the exclusive or of all six-bit values, of which exactly one has changed.
    have hsum : runningXor (encodeSector sector) 343 = 0 :=
      (runningXor_encodeSector sector (Nat.le_refl _)).trans (plainValue_last sector)
    have hwrong : runningXor field 343 ≠ 0 :=
      runningXor_ne_zero i.isLt hother (hself.trans_ne hx) (encodeSector_mem sector i.isLt)
        (hall i i.isLt) hsum
    refine ⟨joinedSector field, ?_⟩
    rw [decodeSector_of_forall_mem hall, decide_eq_false hwrong]

/-- In the field of a sector of zeros, byte 10 becomes one that is no disk byte, and byte 342, the
checksum, another disk byte. -/
theorem decodeSector_of_changed_zeros :
    (0xAA ≠ (encodeSector (.zero 256)).byte 10 ∧
      decodeSector (.tabulate 343 (Function.update (encodeSector (.zero 256)).byte 10 0xAA)) =
        .error (.invalidNibble 0xAA)) ∧
    (0x97 ≠ (encodeSector (.zero 256)).byte 342 ∧ ∃ data,
      decodeSector (.tabulate 343 (Function.update (encodeSector (.zero 256)).byte 342 0x97)) =
        .ok ⟨data, false⟩) := by
  have hfirst : 0xAA ≠ (encodeSector (.zero 256)).byte 10 := by
    rw [byte_encodeSector _ (by decide)]
    simp only [plainValue, previousValue, Bytes.byte_zero]
    decide
  have hlast : 0x97 ≠ (encodeSector (.zero 256)).byte 342 := by
    rw [byte_encodeSector _ (by decide)]
    simp only [plainValue, previousValue, Bytes.byte_zero]
    decide
  exact ⟨⟨hfirst, (decodeSector_of_changed (.zero 256) 10 0xAA hfirst).1 (by decide +kernel)⟩,
    hlast, (decodeSector_of_changed (.zero 256) 342 0x97 hlast).2 (by decide +kernel)⟩

end Diskette.Gcr
