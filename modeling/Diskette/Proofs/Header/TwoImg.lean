import Diskette.Proofs.Header

/-!
# 2IMG headers and their bytes

A 2IMG header has a number or a code in each of its bytes but the reserved ones, so nothing else is
lost between the bytes and what they say. Any header can be written; one that gives itself a size below
64 is not read again.

* `fields_of_parse`: what is read is written as the bytes that it was read from.
* `parse_congr`: the reserved bytes are not looked at.
* `parse_eq_ok_iff`: the bytes that a header is read from.
* `codec`: reading and writing, once and many times.
-/

namespace Diskette.Header

theorem DataFormat.code_of_ofCode? {code : Nat} {format : DataFormat}
    (h : ofCode? code = some format) : format.code = code := by
  unfold ofCode? at h
  split at h <;> cases h <;> rfl

namespace TwoImg

variable {bytes a b : Bytes 64} {header : TwoImg}

/-- The same bytes, with zeros in the reserved ones. -/
def clearReserved (bytes : Bytes 64) : Bytes 64 := bytes.overwrite 0x30 (zeros 0x10)

theorem byte_clearReserved (bytes : Bytes 64) (i : Nat) :
    (clearReserved bytes).byte i = if i < 0x30 then bytes.byte i else 0 := by
  by_cases hi : i < 64
  · rw [clearReserved, Bytes.byte_overwrite _ _ _ hi, size_zeros, byteAt_zeros]
    split
    · rw [if_neg (by omega)]
    · rw [if_pos (by omega)]
  · rw [Bytes.byte_of_le (by omega), if_neg (by omega)]

/-! ## What is read -/

private theorem signature_eq (h : hasSignature bytes.data) :
    signature = (List.range' 0 4).map (byteAt bytes.data) := by
  simp only [hasSignature, decide_eq_true_eq] at h
  obtain ⟨h0, h1, h2, h3⟩ := h
  simp [signature, List.range', h0, h1, h2, h3]

private theorem leBytes_word16 (bytes : Bytes 64) (offset : Nat) :
    leBytes 2 (word16 bytes offset).toNat = (List.range' offset 2).map (byteAt bytes.data) := by
  have hlt : leNat bytes.data offset 2 < 2 ^ 16 := leNat_lt bytes.data offset 2
  rw [word16, UInt16.toNat_ofNat', Nat.mod_eq_of_lt hlt, leBytes_leNat]

private theorem leBytes_word32 (bytes : Bytes 64) (offset : Nat) :
    leBytes 4 (word32 bytes offset).toNat = (List.range' offset 4).map (byteAt bytes.data) := by
  have hlt : leNat bytes.data offset 4 < 2 ^ 32 := leNat_lt bytes.data offset 4
  rw [word32, UInt32.toNat_ofNat', Nat.mod_eq_of_lt hlt, leBytes_leNat]

/-- The fields that were read make up the bytes that they were read from. -/
theorem fields_of_parse (h : parse bytes = .ok header) :
    header.fields = (List.range' 0 0x30).map (byteAt bytes.data) := by
  unfold parse at h
  split at h
  · next hsignature =>
    dsimp only at h
    split at h
    · cases h
    · split at h
      · cases h
      · next format hformat =>
        obtain rfl := Except.ok.inj h
        unfold fields
        dsimp only
        rw [signature_eq hsignature, ← toList_eq, Bytes.toList_ofSlice,
          DataFormat.code_of_ofCode? hformat, leBytes_leNat]
        simp only [leBytes_word16, leBytes_word32]
        -- Each field is a piece of the range now, and they stand end to end.
        rfl
  · cases h

/-- A header that was read is written as the bytes that it was read from. -/
theorem toBytes_of_parse (h : parse bytes = .ok header) : header.toBytes = clearReserved bytes := by
  refine Bytes.ext_byte fun i hi => ?_
  rw [byte_clearReserved, Bytes.byte, byteAt_toBytes header hi, fields_of_parse h, List.getElem?_map]
  split
  · next hlt => rw [List.getElem?_range' hlt, Nat.zero_add, Nat.one_mul]; rfl
  · next hge => rw [List.getElem?_eq_none (by simpa using hge)]; rfl

/-! ## The bytes that a header is read from -/

/-- The reserved bytes are not looked at. -/
theorem parse_congr (h : ∀ i, i < 0x30 → a.byte i = b.byte i) : parse a = parse b := by
  have hle {offset count : Nat} (hend : offset + count ≤ 0x30) :
      leNat a.data offset count = leNat b.data offset count :=
    leNat_congr fun i _ hi => h i (Nat.lt_of_lt_of_le hi hend)
  have hcreator : Bytes.ofSlice 4 a.data 0x04 = Bytes.ofSlice 4 b.data 0x04 := by
    refine Bytes.ext_byte fun i hi => ?_
    rw [Bytes.byte_ofSlice, Bytes.byte_ofSlice, if_pos hi, if_pos hi]
    exact h (4 + i) (by omega)
  unfold parse word16 word32
  rw [hasSignature_congr fun i hi => h i (Nat.lt_of_lt_of_le hi (by decide)), hcreator]
  simp (disch := decide) only [hle]

theorem parse_clearReserved (bytes : Bytes 64) : parse (clearReserved bytes) = parse bytes :=
  parse_congr fun i hi => by rw [byte_clearReserved, if_pos hi]

theorem parse_toBytes_of_parse (h : parse bytes = .ok header) :
    parse header.toBytes = .ok header := by
  rw [toBytes_of_parse h, parse_clearReserved, h]

theorem headerSize_of_parse (h : parse bytes = .ok header) : 64 ≤ header.headerSize.toNat := by
  -- The same header is read from its own bytes, so these were not refused for the size in them.
  have hagain := parse_toBytes_of_parse h
  rw [parse_toBytes_eq] at hagain
  split at hagain
  · cases hagain
  · next hsize => exact Nat.not_lt.mp hsize

/-- A header is read from its own bytes, with anything in the reserved ones, and from no others. -/
theorem parse_eq_ok_iff : parse bytes = .ok header ↔
    64 ≤ header.headerSize.toNat ∧ header.toBytes = clearReserved bytes := by
  constructor
  · exact fun h => ⟨headerSize_of_parse h, toBytes_of_parse h⟩
  · rintro ⟨hsize, hbytes⟩
    rw [← parse_clearReserved, ← hbytes, parse_toBytes header hsize]

/-! ## Reading and writing many times -/

/-- Reads a header and writes it again. -/
def recode (bytes : Bytes 64) : Except DiskError (Bytes 64) := (parse bytes).map toBytes

/-- Reads a header and writes it again, `count` times in a row. -/
def recodeTimes : (count : Nat) → Bytes 64 → Except DiskError (Bytes 64)
  | 0, bytes => .ok bytes
  | count + 1, bytes => recodeTimes count bytes >>= recode

theorem recode_of_parse (h : parse bytes = .ok header) : recode bytes = .ok header.toBytes := by
  rw [recode, h, Except.map]

theorem recode_of_parse_error {e : DiskError} (h : parse bytes = .error e) :
    recode bytes = .error e := by
  rw [recode, h, Except.map]

theorem parse_recode (bytes : Bytes 64) : recode bytes >>= parse = parse bytes := by
  cases h : parse bytes with
  | error e => simp only [recode_of_parse_error h, bind, Except.bind]
  | ok header => simp only [recode_of_parse h, bind, Except.bind, parse_toBytes_of_parse h]

theorem recode_recode (bytes : Bytes 64) : recode bytes >>= recode = recode bytes := by
  cases h : parse bytes with
  | error e => simp only [recode_of_parse_error h, bind, Except.bind]
  | ok header =>
    have hagain := recode_of_parse (parse_toBytes_of_parse h)
    simp only [recode_of_parse h, bind, Except.bind, hagain]

/-- However often it was written again, the same header is read. -/
theorem parse_recodeTimes (bytes : Bytes 64) (count : Nat) :
    recodeTimes count bytes >>= parse = parse bytes := by
  induction count with
  | zero => rfl
  | succ count ih =>
    rw [recodeTimes, bind_assoc]
    simp only [parse_recode, ih]

/-- Only the first time changes the bytes. -/
theorem recodeTimes_succ (bytes : Bytes 64) (count : Nat) :
    recodeTimes (count + 1) bytes = recode bytes := by
  induction count with
  | zero => rfl
  | succ count ih => rw [recodeTimes, ih, recode_recode]

/-- Every header is read back from its own bytes, unless it says that it is shorter than those; the
bytes that a header is read from are its own but for the reserved ones; and reading and writing it
any number of times neither changes what is read nor, after the first time, the bytes. -/
theorem codec :
    (∀ header : TwoImg, parse header.toBytes =
      if header.headerSize.toNat < 64 then
        .error (.format .twoImg (.headerTooSmall header.headerSize.toNat))
      else .ok header) ∧
    (∀ (bytes : Bytes 64) (header : TwoImg), parse bytes = .ok header ↔
      64 ≤ header.headerSize.toNat ∧ header.toBytes = clearReserved bytes) ∧
    ∀ (bytes : Bytes 64) (count : Nat),
      (recodeTimes count bytes >>= parse) = parse bytes ∧
        recodeTimes (count + 1) bytes = recode bytes :=
  ⟨parse_toBytes_eq, fun _ _ => parse_eq_ok_iff, fun bytes count =>
    ⟨parse_recodeTimes bytes count, recodeTimes_succ bytes count⟩⟩

end TwoImg

end Diskette.Header
