import Diskette.Proofs.Bytes
import Diskette.Proofs.Gcr.Field
import Diskette.Proofs.Gcr.SectorCode
import Diskette.Proofs.Gcr.Survey
import Mathlib.Data.List.Basic
import Mathlib.Logic.Function.Basic

/-!
# Formatted tracks

A freshly formatted track has sixteen sectors of 409 disk bytes one after the other, each with an
address field and a data field at fixed places. Only the data fields ever change: a track is
`Formatted` if it is a fresh one with some sectors in its data fields.

* `formatted_formatted`: a fresh track has sectors of zeros.
* `Formatted.writeField`: a sector is replaced in its data field.
* `Formatted.ofTrack_eq`: a survey finds every sector in its place and nothing else.
* `Formatted.decode_field`: a sector is read back from its data field.
-/

namespace Diskette.Gcr.Track

/-- Where the data field of a sector is on a formatted track. -/
def dataPlace (sector : Nat) : Nat := sector * 409 + 63

/-- Byte `r` of a formatted sector with this address and this data field. -/
def sectorByte (address : Bytes 8) (field : Bytes 343) (r : Nat) : UInt8 :=
  if r < 40 then syncByte
  else if r < 43 then addressPrologue[r - 40]?.getD 0
  else if r < 51 then address.byte (r - 43)
  else if r < 54 then epilogue[r - 51]?.getD 0
  else if r < 60 then syncByte
  else if r < 63 then dataPrologue[r - 60]?.getD 0
  else if r < 406 then field.byte (r - 63)
  else epilogue[r - 406]?.getD 0

theorem sectorByte_address (address : Bytes 8) (field : Bytes 343) {i : Nat} (h : i < 8) :
    sectorByte address field (43 + i) = address.byte i := by
  unfold sectorByte
  rw [if_neg (by omega), if_neg (by omega), if_pos (by omega), Nat.add_sub_cancel_left]

theorem sectorByte_data (address : Bytes 8) (field : Bytes 343) {i : Nat} (h : i < 343) :
    sectorByte address field (63 + i) = field.byte i := by
  unfold sectorByte
  rw [if_neg (by omega), if_neg (by omega), if_neg (by omega), if_neg (by omega), if_neg (by omega),
    if_neg (by omega), if_pos (by omega), Nat.add_sub_cancel_left]

/-- Outside of its data field a sector does not depend on what it holds. -/
theorem sectorByte_congr (address : Bytes 8) (field field' : Bytes 343) {r : Nat}
    (h : r < 63 ∨ 406 ≤ r) : sectorByte address field r = sectorByte address field' r := by
  unfold sectorByte
  rcases h with h | h
  · split_ifs
    all_goals rfl
  · rw [if_neg (by omega), if_neg (by omega), if_neg (by omega), if_neg (by omega),
      if_neg (by omega), if_neg (by omega), if_neg (by omega)]
    rw [if_neg (by omega), if_neg (by omega), if_neg (by omega), if_neg (by omega),
      if_neg (by omega), if_neg (by omega), if_neg (by omega)]

/-- A track of a formatted image, with these sectors in its data fields. -/
structure Formatted (volume number : UInt8) (track : ByteArray) (sectors : Nat → Sector) : Prop where
  size_eq : track.size = trackSize
  byte_eq {s r : Nat} (hs : s < 16) (hr : r < 409) :
    byteAt track (s * 409 + r) =
      sectorByte (AddressField.encode ⟨volume, number, UInt8.ofNat s⟩) (encodeSector (sectors s)) r
  gap {i : Nat} (h : 6544 ≤ i) (hi : i < trackSize) : byteAt track i = syncByte

/-! ## Fresh tracks -/

/-- The disk bytes of a formatted sector with this address and this data field. -/
def sectorBytes (address : Bytes 8) (field : Bytes 343) : List UInt8 :=
  List.replicate 40 syncByte ++ addressPrologue ++ address.data.toList ++ epilogue ++
    List.replicate 6 syncByte ++ dataPrologue ++ field.data.toList ++ epilogue

private theorem length_addressPrologue : addressPrologue.length = 3 := rfl

private theorem length_dataPrologue : dataPrologue.length = 3 := rfl

private theorem length_epilogue : epilogue.length = 3 := rfl

theorem length_sectorBytes (address : Bytes 8) (field : Bytes 343) :
    (sectorBytes address field).length = 409 := by
  simp only [sectorBytes, List.length_append, List.length_replicate, length_toList,
    Bytes.size_data, length_addressPrologue, length_dataPrologue, length_epilogue]

theorem getD_sectorBytes (address : Bytes 8) (field : Bytes 343) (r : Nat) :
    (sectorBytes address field)[r]?.getD 0 = sectorByte address field r := by
  have hsync {n i : Nat} (hi : i < n) : (List.replicate n syncByte)[i]?.getD 0 = syncByte := by
    simp [hi]
  unfold sectorBytes sectorByte
  simp only [List.append_assoc, getD_append, getD_toList, List.length_replicate, length_toList,
    Bytes.size_data, length_addressPrologue, length_dataPrologue, length_epilogue, Nat.sub_sub,
    Nat.reduceAdd]
  -- The boundaries are those of the parts of the sector, in their order on the track.
  by_cases h1 : r < 40
  · rw [if_pos h1, if_pos h1, hsync h1]
  rw [if_neg h1, if_neg h1]
  by_cases h2 : r < 43
  · rw [if_pos (by omega), if_pos h2]
  rw [if_neg (by omega), if_neg h2]
  by_cases h3 : r < 51
  · rw [if_pos (by omega), if_pos h3]
    rfl
  rw [if_neg (by omega), if_neg h3]
  by_cases h4 : r < 54
  · rw [if_pos (by omega), if_pos h4]
  rw [if_neg (by omega), if_neg h4]
  by_cases h5 : r < 60
  · rw [if_pos (by omega), if_pos h5, hsync (by omega)]
  rw [if_neg (by omega), if_neg h5]
  by_cases h6 : r < 63
  · rw [if_pos (by omega), if_pos h6]
  rw [if_neg (by omega), if_neg h6]
  by_cases h7 : r < 406
  · rw [if_pos (by omega), if_pos h7]
    rfl
  rw [if_neg (by omega), if_neg h7]

private theorem length_flatMap_range {f : Nat → List UInt8} {n : Nat} (hf : ∀ s, (f s).length = n)
    (count : Nat) : ((List.range count).flatMap f).length = count * n := by
  induction count with
  | zero => simp
  | succ count ih =>
    rw [List.range_succ, List.flatMap_append, List.length_append, ih, Nat.succ_mul]
    simp [hf]

/-- Element `s * n + r` of lists of `n` elements one after the other. -/
private theorem getD_flatMap_range {f : Nat → List UInt8} {n : Nat} (hf : ∀ s, (f s).length = n)
    (count : Nat) {s r : Nat} (hs : s < count) (hr : r < n) :
    ((List.range count).flatMap f)[s * n + r]?.getD 0 = (f s)[r]?.getD 0 := by
  induction count with
  | zero => exact absurd hs (Nat.not_lt_zero s)
  | succ count ih =>
    rw [List.range_succ, List.flatMap_append, getD_append, length_flatMap_range hf]
    by_cases hlt : s < count
    · have : (s + 1) * n ≤ count * n := Nat.mul_le_mul_right n hlt
      rw [Nat.succ_mul] at this
      rw [if_pos (by omega), ih hlt]
    · obtain rfl : s = count := by omega
      rw [if_neg (by omega), Nat.add_sub_cancel_left]
      simp

private theorem length_formattedSector (volume number : UInt8) (s : Nat) :
    (formattedSector volume number (UInt8.ofNat s)).length = 409 := length_sectorBytes _ _

theorem length_formattedSectors (volume number : UInt8) :
    (formattedSectors volume number).length = 6544 :=
  length_flatMap_range (length_formattedSector volume number) 16

/-- A freshly formatted track has sectors of zeros. -/
theorem formatted_formatted (volume number : UInt8) :
    Formatted volume number (formatted volume number) fun _ => Bytes.zero 256 where
  size_eq := by
    simp only [formatted, List.size_toByteArray, List.length_append, List.length_replicate,
      length_formattedSectors]
    rfl
  byte_eq := by
    intro s r hs hr
    rw [formatted, byteAt_toByteArray, getD_append, length_formattedSectors, if_pos (by omega),
      formattedSectors, getD_flatMap_range (length_formattedSector volume number) 16 hs hr]
    exact getD_sectorBytes _ _ r
  gap := by
    intro i hle hlt
    rw [formatted, byteAt_toByteArray, getD_append, length_formattedSectors, if_neg (by omega)]
    have : i - 6544 < trackSize - 6544 := Nat.sub_lt_sub_right hle hlt
    simp [this]

/-! ## Where the prologues are -/

section

variable {volume number : UInt8} {track : ByteArray} {sectors : Nat → Sector}

theorem Formatted.byte_sector (h : Formatted volume number track sectors) {s r : Nat} (hs : s < 16)
    (hr : r < 409) :
    byte track (s * 409 + r) =
      sectorByte (AddressField.encode ⟨volume, number, UInt8.ofNat s⟩) (encodeSector (sectors s))
        r := by
  have hsize : track.size = 6656 := h.size_eq
  have hlt : s * 409 + r < track.size := by omega
  rw [byte, Nat.mod_eq_of_lt hlt, h.byte_eq hs hr]

theorem byte_encode_ne (address : AddressField) (i : Nat) : address.encode.byte i ≠ 0xD5 := by
  have hodd (value : UInt8) : oddBits value ≠ 0xD5 := by
    have : ∀ n : Fin 256, oddBits (UInt8.ofNat n) ≠ 0xD5 := by decide +kernel
    simpa using this ⟨value.toNat, value.toNat_lt⟩
  have heven (value : UInt8) : evenBits value ≠ 0xD5 := by
    have : ∀ n : Fin 256, evenBits (UInt8.ofNat n) ≠ 0xD5 := by decide +kernel
    simpa using this ⟨value.toNat, value.toNat_lt⟩
  rw [AddressField.encode, Bytes.byte_ofList]
  split
  · cases hi : ([address.volume, address.track, address.sector, address.checksum].flatMap
      fun value => [oddBits value, evenBits value])[i]? with
    | none => decide
    | some b =>
      obtain ⟨value, -, hmem⟩ := List.mem_flatMap.mp (List.mem_of_getElem? hi)
      rcases List.mem_pair.mp hmem with rfl | rfl
      · exact hodd value
      · exact heven value
  · decide

/-- The first byte of a prologue is nowhere else in a formatted sector. -/
theorem sectorByte_ne (address : AddressField) (sector : Sector) {r : Nat} (h40 : r ≠ 40)
    (h60 : r ≠ 60) : sectorByte address.encode (encodeSector sector) r ≠ 0xD5 := by
  have hprologue (last : UInt8) (hlast : last ≠ 0xD5) (i : Nat) (hi : i ≠ 0) :
      ([0xD5, 0xAA, last][i]?).getD 0 ≠ 0xD5 := by
    rcases (by omega : i = 1 ∨ i = 2 ∨ 3 ≤ i) with rfl | rfl | h3
    · exact (by decide : (0xAA : UInt8) ≠ 0xD5)
    · exact hlast
    · rw [List.getElem?_eq_none (by exact h3)]
      decide
  have hepilogue (i : Nat) : epilogue[i]?.getD 0 ≠ 0xD5 := by
    rcases (by omega : i = 0 ∨ i = 1 ∨ i = 2 ∨ 3 ≤ i) with rfl | rfl | rfl | h3
    · decide
    · decide
    · decide
    · rw [List.getElem?_eq_none (by exact h3)]
      decide
  unfold sectorByte
  split_ifs
  · decide
  · exact hprologue 0x96 (by decide) _ (by omega)
  · exact byte_encode_ne _ _
  · exact hepilogue _
  · decide
  · exact hprologue 0xAD (by decide) _ (by omega)
  · rw [byte_encodeSector _ (by omega)]
    exact encodeSix_ne _
  · exact hepilogue _

/-- Both prologues start with the same byte, which stands at two places of a sector only. -/
theorem Formatted.byte_eq_prologue (h : Formatted volume number track sectors) {i : Nat}
    (hi : i < trackSize) (hb : byte track i = 0xD5) :
    ∃ s, s < 16 ∧ (i = s * 409 + 40 ∨ i = s * 409 + 60) := by
  have hsize : track.size = 6656 := h.size_eq
  have hi' : i < 6656 := hi
  by_cases hgap : 6544 ≤ i
  · rw [byte, Nat.mod_eq_of_lt (by omega), h.gap hgap hi] at hb
    exact absurd hb (by decide)
  · have hs : i / 409 < 16 := by omega
    have hr : i % 409 < 409 := Nat.mod_lt _ (by decide)
    have hsplit : i = i / 409 * 409 + i % 409 := by omega
    rw [hsplit, h.byte_sector hs hr] at hb
    by_contra hne
    refine sectorByte_ne _ _ (fun h40 => hne ⟨i / 409, hs, .inl ?_⟩)
      (fun h60 => hne ⟨i / 409, hs, .inr ?_⟩) hb
    · omega
    · omega

theorem Formatted.occursAt_address (h : Formatted volume number track sectors) {s : Nat}
    (hs : s < 16) : occursAt track (s * 409 + 40) addressPrologue := by
  simp only [addressPrologue, occursAt, Nat.add_assoc, h.byte_sector hs (show 40 < 409 by decide),
    h.byte_sector hs (show 40 + 1 < 409 by decide),
    h.byte_sector hs (show 40 + (1 + 1) < 409 by decide)]
  rfl

theorem Formatted.occursAt_data (h : Formatted volume number track sectors) {s : Nat}
    (hs : s < 16) : occursAt track (s * 409 + 60) dataPrologue := by
  simp only [dataPrologue, occursAt, Nat.add_assoc, h.byte_sector hs (show 60 < 409 by decide),
    h.byte_sector hs (show 60 + 1 < 409 by decide),
    h.byte_sector hs (show 60 + (1 + 1) < 409 by decide)]
  rfl

theorem byte_of_occursAt {i : Nat} {a b c : UInt8} (h : occursAt track i [a, b, c]) :
    byte track i = a ∧ byte track (i + 2) = c := by
  simp only [occursAt, Bool.and_eq_true, beq_iff_eq, and_true] at h
  exact ⟨h.1, h.2.2⟩

/-- The address fields start where the sectors do, after the first gap. -/
theorem Formatted.addressStarts_eq (h : Formatted volume number track sectors) :
    Survey.addressStarts track = (List.range 16).map fun s => s * 409 + 40 := by
  have hcongr : ∀ i ∈ List.range trackSize, occursAt track i addressPrologue =
      decide (i % 409 = 40 ∧ i < 6544) := by
    intro i hi
    rw [Bool.eq_iff_iff, decide_eq_true_iff]
    constructor
    · intro hoccurs
      obtain ⟨hfirst, hlast⟩ := byte_of_occursAt hoccurs
      obtain ⟨s, hs, rfl | rfl⟩ := h.byte_eq_prologue (List.mem_range.mp hi) hfirst
      · omega
      · have := (byte_of_occursAt (h.occursAt_data hs)).2
        rw [hlast] at this
        exact absurd this (by decide)
    · rintro ⟨hr, hlt⟩
      rw [show i = i / 409 * 409 + 40 by omega]
      exact h.occursAt_address (by omega)
  rw [Survey.addressStarts, h.size_eq, List.filter_congr hcongr]
  decide +kernel

theorem Formatted.dataPrologue?_eq (h : Formatted volume number track sectors) {s : Nat}
    (hs : s < 16) : Survey.dataPrologue? track (s * 409 + 51) = some (s * 409 + 60) := by
  have hfirst : (List.range Survey.dataWindow).find?
      ((occursAt track · dataPrologue) ∘ (s * 409 + 51 + ·)) = some 9 := by
    rw [List.find?_range_eq_some]
    refine ⟨h.occursAt_data hs, by decide, fun j hj => ?_⟩
    rw [Bool.not_eq_true']
    by_contra hoccurs
    rw [Bool.not_eq_false] at hoccurs
    have hlt : s * 409 + 51 + j < 6656 := by omega
    obtain ⟨s', hs', heq⟩ := h.byte_eq_prologue hlt (byte_of_occursAt hoccurs).1
    omega
  rw [Survey.dataPrologue?, List.find?_map, hfirst]
  rfl

/-! ## The survey -/

/-- What a survey finds on a formatted track. -/
def formattedIndex : SectorIndex := Vector.ofFn fun s => some (dataPlace s)

theorem Formatted.examine_eq (h : Formatted volume number track sectors) {s : Nat} (hs : s < 16) :
    Survey.examine number.toNat track (s * 409 + 40) = .ok (⟨s, hs⟩, dataPlace s) := by
  have haddress : field 8 track (s * 409 + 40 + 3) =
      AddressField.encode ⟨volume, number, UInt8.ofNat s⟩ := by
    refine Bytes.ext_byte fun i hi => ?_
    rw [field, Bytes.byte_tabulate, if_pos hi, Nat.add_assoc, Nat.add_assoc,
      h.byte_sector hs (by omega), ← Nat.add_assoc, sectorByte_address _ _ hi]
  have hsector : (UInt8.ofNat s).toNat = s := by
    rw [UInt8.toNat_ofNat']
    omega
  have hsize : track.size = 6656 := h.size_eq
  have hplace : (s * 409 + 63) % track.size = dataPlace s := Nat.mod_eq_of_lt (by omega)
  unfold Survey.examine
  rw [haddress, AddressField.decode_encode]
  simp only [ne_eq, not_true_eq_false, if_false, hsector, hs, dite_true, Nat.add_assoc,
    Nat.reduceAdd, h.dataPrologue?_eq hs]
  rw [hplace]

theorem get_formattedIndex (sector : Fin 16) :
    formattedIndex.get sector = some (dataPlace sector) := Vector.getElem_ofFn _

private theorem Formatted.foldl_step (h : Formatted volume number track sectors) {count : Nat}
    (hle : count ≤ 16) :
    ((List.range count).map fun s => s * 409 + 40).foldl (Survey.step number.toNat track)
        ⟨Vector.replicate 16 none, #[]⟩ =
      ⟨Vector.ofFn fun s => if s.val < count then some (dataPlace s) else none, #[]⟩ := by
  induction count with
  | zero =>
    simp only [List.range_zero, List.map_nil, List.foldl_nil, Nat.not_lt_zero, if_false]
    rfl
  | succ count ih =>
    rw [List.range_succ, List.map_append, List.foldl_append, ih (by omega)]
    have hget (sector : Fin 16) :
        (Vector.ofFn fun s : Fin 16 => if s.val < count then some (dataPlace s) else none).get
          sector = if sector.val < count then some (dataPlace sector) else none :=
      Vector.getElem_ofFn _
    simp only [List.map_cons, List.map_nil, List.foldl_cons, List.foldl_nil, Survey.step,
      h.examine_eq (show count < 16 by omega), hget, Nat.lt_irrefl, if_false]
    refine congrArg (Survey.mk · #[]) ?_
    ext s hs
    rw [Vector.getElem_set, Vector.getElem_ofFn, Vector.getElem_ofFn]
    by_cases he : count = s
    · subst he
      simp
    · simp only [he, if_false, show s < count + 1 ↔ s < count by omega]

/-- Every sector is found in its place, and nothing else is found. -/
theorem Formatted.ofTrack_eq (h : Formatted volume number track sectors) :
    Survey.ofTrack number.toNat track = ⟨formattedIndex, #[]⟩ := by
  have hindex : (Vector.ofFn fun s : Fin 16 => if s.val < 16 then some (dataPlace s) else none) =
      formattedIndex := by
    ext s hs
    simp [formattedIndex]
  have hmissing : Survey.missing formattedIndex = [] := by
    simp [Survey.missing, get_formattedIndex]
  rw [Survey.ofTrack, h.addressStarts_eq, h.foldl_step (Nat.le_refl 16), hindex, hmissing]
  rfl

theorem Formatted.intact (h : Formatted volume number track sectors) :
    Survey.Intact number.toNat track := by
  rw [← Survey.sound_ofTrack_iff, h.ofTrack_eq]
  exact fun _ => Array.not_mem_empty _

/-! ## Sectors -/

/-- A sector is read back from its data field. -/
theorem Formatted.decode_field (h : Formatted volume number track sectors) {s : Nat} (hs : s < 16) :
    decodeSector (field 343 track (dataPlace s)) = .ok ⟨sectors s, true⟩ := by
  have hfield : field 343 track (dataPlace s) = encodeSector (sectors s) := by
    refine Bytes.ext_byte fun i hi => ?_
    rw [field, Bytes.byte_tabulate, if_pos hi, dataPlace, Nat.add_assoc,
      h.byte_sector hs (by omega), sectorByte_data _ _ hi]
  rw [hfield, decodeSector_encodeSector]

/-- A sector is replaced in its data field. -/
theorem Formatted.writeField (h : Formatted volume number track sectors) {s : Nat} (hs : s < 16)
    (sector : Sector) :
    Formatted volume number (writeField track (dataPlace s) (encodeSector sector))
      (Function.update sectors s sector) where
  size_eq := (size_writeField ..).trans h.size_eq
  byte_eq := by
    intro s' r hs' hr
    have hsize : track.size = 6656 := h.size_eq
    rw [byteAt_writeField (by rw [dataPlace]; omega), dataPlace]
    by_cases hin : s * 409 + 63 ≤ s' * 409 + r ∧ s' * 409 + r < s * 409 + 63 + 343
    · obtain rfl : s' = s := by omega
      rw [if_pos hin, Function.update_self, show r = 63 + (r - 63) by omega,
        sectorByte_data _ _ (by omega)]
      congr 1
      omega
    · rw [if_neg hin, h.byte_eq hs' hr]
      by_cases he : s' = s
      · subst he
        exact sectorByte_congr _ _ _ (by omega)
      · rw [Function.update_of_ne he]
  gap := by
    intro i hle hlt
    have hsize : track.size = 6656 := h.size_eq
    rw [byteAt_writeField (by rw [dataPlace]; omega), dataPlace, if_neg (by omega)]
    exact h.gap hle hlt

/-- Two formatted tracks of one number differ only in the data fields of sectors that differ. -/
theorem Formatted.byteAt_eq {track' : ByteArray} {sectors' : Nat → Sector}
    (h : Formatted volume number track sectors) (h' : Formatted volume number track' sectors')
    {i : Nat} (hi : i < trackSize)
    (hsame : ∀ s, s < 16 → dataPlace s ≤ i → i < dataPlace s + 343 → sectors' s = sectors s) :
    byteAt track' i = byteAt track i := by
  by_cases hgap : 6544 ≤ i
  · rw [h.gap hgap hi, h'.gap hgap hi]
  · have hs : i / 409 < 16 := by omega
    have hr : i % 409 < 409 := Nat.mod_lt _ (by decide)
    rw [show i = i / 409 * 409 + i % 409 by omega, h.byte_eq hs hr, h'.byte_eq hs hr]
    by_cases hin : 63 ≤ i % 409 ∧ i % 409 < 406
    · rw [hsame (i / 409) hs (by unfold dataPlace; omega) (by unfold dataPlace; omega)]
    · exact sectorByte_congr _ _ _ (by omega)

end

end Diskette.Gcr.Track
