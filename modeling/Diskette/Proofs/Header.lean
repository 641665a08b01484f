import Diskette.Header.Davex
import Diskette.Header.DiskCopy
import Diskette.Header.TwoImg
import Diskette.Proofs.Bytes

/-!
# Headers are read back

What is written into the header of a new file is read from it again.

* `TwoImg.parse_toBytes`, `TwoImg.parse_toBytes_eq`: a 2IMG header.
* `DiskCopy.parse_newHeader`: a DiskCopy 4.2 header, whatever the checksum of the data is by then.
* `Davex.parse_newHeader`: a Davex header.
* `TwoImg.hasSignature_toBytes`, `DiskCopy.describes_newHeader`, `Davex.hasIdentity_newHeader`: what
  each of them is recognised by.
-/

namespace Diskette.Header

namespace TwoImg

variable {header : TwoImg}

theorem byteAt_toBytes (header : TwoImg) {i : Nat} (h : i < 64) :
    byteAt header.toBytes.data i = header.fields[i]?.getD 0 := by
  have := Bytes.byte_ofList (n := 64) header.fields i
  rwa [if_pos h] at this

private theorem length_creator (header : TwoImg) : header.creator.data.data.toList.length = 4 :=
  header.creator.size_data

private theorem length_signature : signature.length = 4 := rfl

private theorem leNat_toBytes {offset count n : Nat} (hle : offset + count ≤ 64)
    (hn : n < 256 ^ count)
    (h : ∀ k, k < count → header.fields[offset + k]?.getD 0 = (leBytes count n)[k]?.getD 0) :
    leNat header.toBytes.data offset count = n := by
  rw [leNat_of_leBytes (n := n)]
  · exact Nat.mod_eq_of_lt hn
  · exact fun k hk => (byteAt_toBytes header (by omega)).trans (h k hk)

private theorem code_lt (format : DataFormat) : format.code < 2 ^ 32 := by
  cases format
  all_goals decide

/-- The numbers of a header are where `parse` looks for them. -/
private theorem numbers_toBytes (header : TwoImg) :
    let data := header.toBytes.data
    leNat data 0x08 2 = header.headerSize.toNat ∧ leNat data 0x0A 2 = header.version.toNat ∧
      leNat data 0x0C 4 = header.format.code ∧ leNat data 0x10 4 = header.flags.toNat ∧
      leNat data 0x14 4 = header.blocks.toNat ∧ leNat data 0x18 4 = header.dataOffset.toNat ∧
      leNat data 0x1C 4 = header.dataLength.toNat ∧
      leNat data 0x20 4 = header.commentOffset.toNat ∧
      leNat data 0x24 4 = header.commentLength.toNat ∧
      leNat data 0x28 4 = header.creatorDataOffset.toNat ∧
      leNat data 0x2C 4 = header.creatorDataLength.toNat := by
  refine ⟨?_, ?_, ?_, ?_, ?_, ?_, ?_, ?_, ?_, ?_, ?_⟩
  all_goals
    refine leNat_toBytes (by decide)
      (by first | exact UInt16.toNat_lt _ | exact UInt32.toNat_lt _ | exact code_lt _) fun k hk => ?_
    simp only [fields, getD_append, List.length_append, length_leBytes, length_creator,
      length_signature]
    simp (disch := omega) only [if_pos, if_neg]
    congr 2
    omega

private theorem creator_toBytes (header : TwoImg) :
    Bytes.ofSlice 4 header.toBytes.data 0x04 = header.creator := by
  refine Bytes.ext_byte fun i hi => ?_
  rw [Bytes.byte_ofSlice, if_pos hi, byteAt_toBytes header (by omega)]
  simp only [fields, getD_append, List.length_append, length_leBytes, length_creator,
    length_signature]
  simp (disch := omega) only [if_pos, if_neg, Nat.add_sub_cancel_left]
  rw [← toList_eq, getD_toList]
  rfl

theorem hasSignature_toBytes (header : TwoImg) : hasSignature header.toBytes.data := by
  have h (i : Nat) (hi : i < 4) : byteAt header.toBytes.data i = signature[i]?.getD 0 := by
    rw [byteAt_toBytes header (by omega)]
    simp only [fields, getD_append, List.length_append, length_leBytes, length_creator,
      length_signature]
    simp (disch := omega) only [if_pos]
    exact if_pos hi
  simp [hasSignature, h, signature]

/-- A written header is read back, if it does not give itself too small a size. -/
theorem parse_toBytes_eq (header : TwoImg) :
    parse header.toBytes =
      if header.headerSize.toNat < 64 then
        .error (.format .twoImg (.headerTooSmall header.headerSize.toNat))
      else .ok header := by
  obtain ⟨h1, h2, h3, h4, h5, h6, h7, h8, h9, h10, h11⟩ := numbers_toBytes header
  unfold parse word16 word32
  rw [if_pos (hasSignature_toBytes header)]
  simp only [h1, h2, h3, h4, h5, h6, h7, h8, h9, h10, h11, UInt16.ofNat_toNat, UInt32.ofNat_toNat,
    DataFormat.ofCode?_code, creator_toBytes]

/-- A header is read back as it was written. -/
theorem parse_toBytes (header : TwoImg) (h : 64 ≤ header.headerSize.toNat) :
    parse header.toBytes = .ok header := by
  rw [parse_toBytes_eq, if_neg (Nat.not_lt.mpr h)]

theorem hasSignature_congr {a b : ByteArray} (h : ∀ i, i < 4 → byteAt a i = byteAt b i) :
    hasSignature a = hasSignature b := by
  unfold hasSignature
  rw [h 0 (by decide), h 1 (by decide), h 2 (by decide), h 3 (by decide)]

theorem hasSignature_eq_false {data : ByteArray} (h : byteAt data 0 ≠ 0x32) :
    hasSignature data = false := by
  simp [hasSignature, h]

end TwoImg

/-! ## DiskCopy 4.2 headers -/

namespace DiskCopy

private theorem beBytes_zero : beBytes 4 0 = List.replicate 4 0 := rfl

private theorem length_newName : newName.length = 8 := rfl

private theorem byte_newHeader (blocks : Nat) {i : Nat} (h : i < 84) :
    (newHeader blocks).byte i =
      ([8] ++ newName ++ List.replicate 55 0 ++ beBytes 4 (blocks * 512) ++ List.replicate 12 0 ++
        [formatCode blocks, if blocks = 800 then 0x12 else 0x22] ++
        beBytes 2 privateWord)[i]?.getD 0 := by
  rw [newHeader, Bytes.byte_ofList, if_pos h]

/-- The numbers in the header of a new file: the sizes of the data and of the tags, the checksum of
the data, and the private word. -/
theorem numbers_newHeader {blocks : Nat} (hlt : blocks * 512 < 0x100000000) :
    let data := (newHeader blocks).data
    beNat data 0x40 4 = blocks * 512 ∧ beNat data 0x44 4 = 0 ∧ beNat data checksumOffset 4 = 0 ∧
      beNat data 0x52 2 = privateWord := by
  have hzeros {offset : Nat} (hlo : 0x44 ≤ offset) (hhi : offset + 4 ≤ 0x50) :
      beNat (newHeader blocks).data offset 4 = 0 := by
    rw [beNat_of_beBytes (n := 0), Nat.zero_mod]
    · intro k hk
      refine (byte_newHeader blocks (by omega)).trans ?_
      simp only [getD_append, List.length_append, length_beBytes, length_newName,
        List.length_replicate, List.length_cons, List.length_nil]
      simp (disch := omega) only [if_pos, if_neg]
      rw [beBytes_zero, List.getElem?_replicate, List.getElem?_replicate, if_pos (by omega), if_pos hk]
  refine ⟨?_, hzeros (by decide) (by decide), hzeros (by decide) (by decide), ?_⟩
  · rw [beNat_of_beBytes (n := blocks * 512)]
    · exact Nat.mod_eq_of_lt hlt
    · intro k hk
      refine (byte_newHeader blocks (by omega)).trans ?_
      simp only [getD_append, List.length_append, length_beBytes, length_newName,
        List.length_replicate, List.length_cons, List.length_nil]
      simp (disch := omega) only [if_pos, if_neg]
      congr 2
      omega
  · rw [beNat_of_beBytes (n := privateWord)]
    · rfl
    · intro k hk
      refine (byte_newHeader blocks (by omega)).trans ?_
      simp only [getD_append, List.length_append, length_beBytes, length_newName,
        List.length_replicate, List.length_cons, List.length_nil]
      simp (disch := omega) only [if_pos, if_neg]
      congr 2
      omega

section

variable {blocks fileSize : Nat} {head : Bytes size}

/-- Whatever the checksum of the data is by then, the other numbers in the header stay. -/
theorem numbers_of_byte_eq (hlt : blocks * 512 < 0x100000000)
    (hhead : ∀ i, i < 84 → ¬ (0x48 ≤ i ∧ i < 0x4C) → head.byte i = (newHeader blocks).byte i) :
    head.byte 0 = 8 ∧ beNat head.data 0x40 4 = blocks * 512 ∧ beNat head.data 0x44 4 = 0 ∧
      beNat head.data 0x52 2 = privateWord := by
  obtain ⟨hdata, htag, -, hword⟩ := numbers_newHeader hlt
  refine ⟨?_, ?_, ?_, ?_⟩
  · rw [hhead 0 (by decide) (by decide), byte_newHeader blocks (by decide)]
    rfl
  · exact (beNat_congr fun i _ _ => hhead i (by omega) (by omega)).trans hdata
  · exact (beNat_congr fun i _ _ => hhead i (by omega) (by omega)).trans htag
  · exact (beNat_congr fun i _ _ => hhead i (by omega) (by omega)).trans hword

/-- The header of a new file, with any checksum of the data in it, is read as describing as many
blocks. -/
theorem parse_newHeader (hpos : blocks ≠ 0) (hlt : blocks * 512 < 0x100000000)
    (hsize : 84 + blocks * 512 ≤ fileSize)
    (hhead : ∀ i, i < 84 → ¬ (0x48 ≤ i ∧ i < 0x4C) → head.byte i = (newHeader blocks).byte i) :
    ∃ header, parse head fileSize = .ok header ∧ header.dataSize = blocks * 512 := by
  obtain ⟨hname, hdata, htag, hword⟩ := numbers_of_byte_eq hlt hhead
  have hshort : ¬ (8 : UInt8).toNat > maxNameLength := by decide
  unfold parse
  simp only [hname, hdata, htag, hword, hshort, if_false, ne_eq, not_true_eq_false]
  have h84 : size = 84 := rfl
  rw [if_neg (by omega), if_neg (by omega)]
  exact ⟨_, rfl, rfl⟩

/-- A file of just that many blocks is taken for a DiskCopy 4.2 file. -/
theorem describes_newHeader (hlt : blocks * 512 < 0x100000000)
    (hhead : ∀ i, i < 84 → ¬ (0x48 ≤ i ∧ i < 0x4C) → head.byte i = (newHeader blocks).byte i) :
    describes head (84 + blocks * 512) := by
  obtain ⟨hname, hdata, htag, hword⟩ := numbers_of_byte_eq hlt hhead
  simp [describes, maxNameLength, hname, hdata, htag, hword]

end

end DiskCopy

/-! ## Davex headers -/

namespace Davex

private theorem byteAt_newHeader (blocks : Nat) {i : Nat} (hi : i < 512) :
    byteAt (newHeader blocks).data i =
      (identity ++ List.replicate 17 0 ++ leBytes 2 blocks)[i]?.getD 0 := by
  have := Bytes.byte_ofList (n := 512) (identity ++ List.replicate 17 0 ++ leBytes 2 blocks) i
  rwa [if_pos hi] at this

theorem hasIdentity_newHeader (blocks : Nat) : hasIdentity (newHeader blocks).data := by
  rw [hasIdentity, List.all_eq_true]
  intro i hi
  have hlt : i < 16 := List.mem_range.mp hi
  rw [beq_iff_eq, byteAt_newHeader blocks (by omega)]
  rw [getD_append, getD_append, List.length_append, length_identity, List.length_replicate,
    if_pos (by omega), if_pos hlt]

theorem hasIdentity_congr {a b : ByteArray} (h : ∀ i, i < 16 → byteAt a i = byteAt b i) :
    hasIdentity a = hasIdentity b := by
  unfold hasIdentity
  rw [Bool.eq_iff_iff, List.all_eq_true, List.all_eq_true]
  exact forall₂_congr fun i hi => by rw [h i (List.mem_range.mp hi)]

theorem byteAt_zero_of_hasIdentity {data : ByteArray} (h : hasIdentity data) :
    byteAt data 0 = 0x60 := by
  rw [hasIdentity, List.all_eq_true] at h
  exact beq_iff_eq.mp (h 0 (by decide))

theorem parse_newHeader {blocks fileSize : Nat} (hpos : blocks ≠ 0) (hlt : blocks < 0x10000)
    (hsize : 512 + blocks * 512 ≤ fileSize) : parse (newHeader blocks) fileSize = .ok blocks := by
  have hblocks : leNat (newHeader blocks).data 33 2 = blocks := by
    rw [leNat_of_leBytes (n := blocks)]
    · exact Nat.mod_eq_of_lt hlt
    · intro k hk
      rw [byteAt_newHeader blocks (by omega)]
      simp only [getD_append, List.length_append, length_identity, List.length_replicate]
      rw [if_neg (by omega), Nat.add_sub_cancel_left]
  have h512 : size = 512 := rfl
  unfold parse
  rw [if_pos (hasIdentity_newHeader blocks)]
  simp only [hblocks]
  rw [if_neg (by omega)]

end Davex

end Diskette.Header
