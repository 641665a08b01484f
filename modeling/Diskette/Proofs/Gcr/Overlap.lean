import Diskette.Proofs.Gcr.FormattedTrack
import Mathlib.Data.List.Find

/-!
# Data fields that overlap

A strict report finds every sector once, but nothing keeps the address field of one sector out of
another sector. Where none is there, the data fields have no place in common.

* `extent`: the places of a sector, from its address field to the end of its data field.
* `mem_extent_of_not_disjoint`: data fields that overlap belong to sectors one of which starts in the
  other.
* `separate_of_run_report_strict`: the data fields that a strict report finds.
* `borrowed`: a track with two sectors of one data field.
-/

namespace Diskette.Gcr.Survey

variable {number start start' place place' : Nat} {track : ByteArray}

/-- The places of the sector whose address field is at `start`: from its prologue to the end of its
data field. -/
def extent (track : ByteArray) (start : Nat) : Set Nat :=
  {k | ∃ gap, IsLeast (dataGaps track start) gap ∧
    k ∈ Track.places track.size (14 + gap + 343) start}

/-- A place that is met on the way from `a` over `p` places and from `b` over `q` places: the nearer
of the two starting places is on the way from the other one. -/
theorem mem_places_of_add_mod_eq {size a b p q n : Nat} (h : (a + p) % size = (b + q) % size)
    (hb : b < size) (hle : q ≤ p) (hp : p < n) : b ∈ Track.places size n a := by
  have hback : a + (p - q) ≡ b [MOD size] := by
    refine Nat.ModEq.add_right_cancel' q ?_
    rw [Nat.add_assoc, Nat.sub_add_cancel hle]
    exact h
  refine ⟨p - q, by omega, ?_⟩
  rw [← Nat.mod_eq_of_lt hb]
  exact hback.symm

/-- Data fields that overlap belong to sectors one of which starts in the other. -/
theorem mem_extent_of_not_disjoint (h : LeadsTo track start place) (h' : LeadsTo track start' place')
    (hstart : start < track.size) (hstart' : start' < track.size)
    (hmeet : ¬ Disjoint (Track.places track.size 343 place) (Track.places track.size 343 place')) :
    start' ∈ extent track start ∨ start ∈ extent track start' := by
  obtain ⟨gap, hgap, rfl⟩ := h
  obtain ⟨gap', hgap', rfl⟩ := h'
  obtain ⟨k, ⟨i, hi, hk⟩, j, hj, hk'⟩ := Set.not_disjoint_iff.mp hmeet
  -- The common place is that far behind each of the address fields.
  have hsame : (start + (14 + gap + i)) % track.size = (start' + (14 + gap' + j)) % track.size := by
    rw [hk, Nat.mod_add_mod, Nat.mod_add_mod] at hk'
    rw [show start + (14 + gap + i) = start + 11 + gap + 3 + i by omega, hk',
      show start' + 11 + gap' + 3 + j = start' + (14 + gap' + j) by omega]
  rcases Nat.le_total (14 + gap' + j) (14 + gap + i) with hle | hle
  · exact .inl ⟨gap, hgap, mem_places_of_add_mod_eq hsame hstart' hle (by omega)⟩
  · exact .inr ⟨gap', hgap', mem_places_of_add_mod_eq hsame.symm hstart hle (by omega)⟩

/-- The address field of one of two sectors is in the other sector. -/
def Nested (number : Nat) (track : ByteArray) (sector sector' : Fin 16) : Prop :=
  ∃ start start', Usable number track sector start ∧ Usable number track sector' start' ∧
    (start' ∈ extent track start ∨ start ∈ extent track start')

/-- The data fields of two sectors, where an index has them, have a place in common. -/
def Overlap (track : ByteArray) (index : SectorIndex) (sector sector' : Fin 16) : Prop :=
  ∃ place place', index.get sector = some place ∧ index.get sector' = some place' ∧
    ¬ Disjoint (Track.places track.size 343 place) (Track.places track.size 343 place')

/-- Two sectors at one place. -/
theorem overlap_of_get_eq {index : SectorIndex} {sector sector' : Fin 16}
    (h : index.get sector = some place) (h' : index.get sector' = some place) :
    Overlap track index sector sector' := by
  have hmem : (place + 0) % track.size ∈ Track.places track.size 343 place :=
    Track.add_mod_mem_places place (by decide)
  exact ⟨place, place, h, h', Set.not_disjoint_iff.mpr ⟨_, hmem, hmem⟩⟩

/-- An index with a place for every sector of a track, such that only the data fields of nested
sectors overlap. -/
structure Separate (number : Nat) (track : ByteArray) (index : SectorIndex) : Prop where
  located (sector : Fin 16) : ∃ place, index.get sector = some place
  nested {sector sector' : Fin 16} (h : Overlap track index sector sector') :
    Nested number track sector sector'

theorem Usable.lt_size {sector : Fin 16} (h : Usable number track sector start) :
    start < track.size := by
  obtain ⟨_, haddress, -⟩ := h
  exact haddress.lt_size

theorem Intact.separate (h : Intact number track) :
    Separate number track (ofTrack number track).index where
  located sector := by
    obtain ⟨_, place, -, -, hget⟩ := h.exists_get sector
    exact ⟨place, hget⟩
  nested {sector sector'} := by
    rintro ⟨place, place', hplace, hplace', hmeet⟩
    obtain ⟨start, found, husable, hleads, hget⟩ := h.exists_get sector
    obtain ⟨start', found', husable', hleads', hget'⟩ := h.exists_get sector'
    obtain rfl := Option.some.inj (hplace.symm.trans hget)
    obtain rfl := Option.some.inj (hplace'.symm.trans hget')
    exact ⟨start, start', husable, husable',
      mem_extent_of_not_disjoint hleads hleads' husable.lt_size husable'.lt_size hmeet⟩

/-- The data fields that a strict report finds. -/
theorem separate_of_run_report_strict {index : SectorIndex} {host after : Host}
    (h : (report .strict number (ofTrack number track)).run host = .ok index after) :
    Separate number track index := by
  obtain ⟨hintact, rfl, -⟩ := run_report_strict_eq_ok_iff.mp h
  exact hintact.separate

/-- No data fields of a formatted track overlap. -/
theorem not_overlap_of_formatted {volume number : UInt8} {sectors : Nat → Sector}
    (h : Track.Formatted volume number track sectors) {sector sector' : Fin 16}
    (hne : sector ≠ sector') :
    ¬ Overlap track (ofTrack number.toNat track).index sector sector' := by
  rintro ⟨place, place', hplace, hplace', hmeet⟩
  rw [h.ofTrack_eq, Track.get_formattedIndex, Option.some.injEq] at hplace hplace'
  obtain ⟨k, ⟨i, hi, hk⟩, j, hj, hk'⟩ := Set.not_disjoint_iff.mp hmeet
  have hsize : track.size = 6656 := h.size_eq
  have hs := sector.isLt
  have hs' := sector'.isLt
  rw [← hplace, hsize, Track.dataPlace, Nat.mod_eq_of_lt (by omega)] at hk
  rw [← hplace', hsize, Track.dataPlace, Nat.mod_eq_of_lt (by omega)] at hk'
  -- 409 places from one data field to the next one are enough for 343 bytes.
  have hval : sector.val ≠ sector'.val := fun heq => hne (Fin.ext heq)
  omega

/-! ## Tracks whose address fields are known -/

/-- A track with one good address field for each sector, and no other, is intact. -/
theorem intact_of_examine {startOf placeOf : Fin 16 → Nat}
    (hstarts : ∀ {start}, start ∈ addressStarts track ↔ ∃ sector, start = startOf sector)
    (hexamine : ∀ sector, examine number track (startOf sector) = .ok (sector, placeOf sector)) :
    Intact number track ∧
      ∀ sector, (ofTrack number track).index.get sector = some (placeOf sector) := by
  have husable (sector : Fin 16) : Usable number track sector (startOf sector) :=
    usable_iff.mpr ⟨hstarts.mpr ⟨sector, rfl⟩, placeOf sector, hexamine sector⟩
  have hunique {sector : Fin 16} {start : Nat} (h : Usable number track sector start) :
      start = startOf sector := by
    obtain ⟨hmem, place, hgood⟩ := usable_iff.mp h
    obtain ⟨other, rfl⟩ := hstarts.mp hmem
    rw [hexamine] at hgood
    obtain ⟨rfl, -⟩ := Prod.mk.inj (Except.ok.inj hgood)
    rfl
  have hintact : Intact number track := by
    refine ⟨fun haddress => ?_, fun sector => ⟨_, husable sector, fun _ => hunique⟩⟩
    obtain ⟨sector, rfl⟩ :=
      hstarts.mp (mem_addressStarts_iff.mpr ⟨haddress.lt_size, haddress.occurs⟩)
    exact ⟨sector, husable sector⟩
  refine ⟨hintact, fun sector => ?_⟩
  obtain ⟨start, place, hstart, hleads, hget⟩ := hintact.exists_get sector
  obtain rfl := hunique hstart
  obtain ⟨-, -, -, -, hleads'⟩ := examine_eq_ok_iff.mp (hexamine sector)
  rw [hget, hleads.unique hleads']

theorem occursAt_congr {track' : ByteArray} {place : Nat} (a b c : UInt8)
    (hbyte : ∀ i, place ≤ i → i < place + 3 → Track.byte track' i = Track.byte track i) :
    Track.occursAt track' place [a, b, c] = Track.occursAt track place [a, b, c] := by
  simp only [Track.occursAt]
  rw [hbyte _ (by omega) (by omega), hbyte _ (by omega) (by omega), hbyte _ (by omega) (by omega)]

/-- An address field is examined alike on tracks with the same bytes behind it. -/
theorem examine_congr {track' : ByteArray} (hsize : track'.size = track.size)
    (hbyte : ∀ i, start ≤ i → i < start + 77 → Track.byte track' i = Track.byte track i) :
    examine number track' start = examine number track start := by
  have hfield : Track.field 8 track' (start + 3) = Track.field 8 track (start + 3) := by
    refine Bytes.ext_byte fun i hi => ?_
    rw [Track.field, Track.field, Bytes.byte_tabulate, Bytes.byte_tabulate, if_pos hi, if_pos hi,
      hbyte _ (by omega) (by omega)]
  have hdata : dataPrologue? track' (start + 11) = dataPrologue? track (start + 11) := by
    refine List.find?_congr fun place hplace => ?_
    obtain ⟨gap, hgap, rfl⟩ := List.mem_map.mp hplace
    have hgap : gap < 64 := List.mem_range.mp hgap
    exact occursAt_congr _ _ _ fun i hlo hhi => hbyte i (by omega) (by omega)
  unfold examine
  rw [hfield, hdata, hsize]

/-! ## A borrowed data field -/

/-- The address field of sector 1 on track 0, with its prologue. -/
def strayAddress : Bytes 11 :=
  Bytes.ofList 11 (addressPrologue ++ (AddressField.encode ⟨254, 0, 1⟩).data.toList)

/-- A fresh track on which the address field of sector 1 does not stand before its data field, but
right before the address field of sector 0. -/
def borrowed : ByteArray :=
  Track.writeField (Track.writeField (Track.formatted 254 0) 29 strayAddress) 449
    (Bytes.ofList 1 [syncByte])

private theorem formatted_fresh :
    Track.Formatted 254 0 (Track.formatted 254 0) fun _ => Bytes.zero 256 :=
  Track.formatted_formatted 254 0

theorem size_borrowed : borrowed.size = 6656 := by
  rw [borrowed, Track.size_writeField, Track.size_writeField]
  exact formatted_fresh.size_eq

theorem byte_borrowed {i : Nat} (hi : i < 6656) :
    Track.byte borrowed i = if i = 449 then syncByte else if 29 ≤ i ∧ i < 40 then
      strayAddress.byte (i - 29) else Track.byte (Track.formatted 254 0) i := by
  have hsize : (Track.formatted 254 0).size = 6656 := formatted_fresh.size_eq
  have hplace : (if 449 ≤ i ∧ i < 449 + 1 then (Bytes.ofList 1 [syncByte]).byte (i - 449) else
      if 29 ≤ i ∧ i < 29 + 11 then strayAddress.byte (i - 29) else byteAt (Track.formatted 254 0) i) =
      if i = 449 then syncByte else if 29 ≤ i ∧ i < 40 then strayAddress.byte (i - 29)
        else byteAt (Track.formatted 254 0) i := by
    by_cases h : i = 449
    · rw [if_pos h, if_pos (by omega), h]
      rfl
    · rw [if_neg h, if_neg (by omega)]
  rw [Track.byte, Track.byte, size_borrowed, hsize, Nat.mod_eq_of_lt hi, ← hplace, borrowed,
    Track.byteAt_writeField (by rw [Track.size_writeField, hsize]; decide),
    Track.byteAt_writeField (by rw [hsize]; decide)]

/-- Away from the two address fields of sector 1 nothing was changed. -/
theorem byte_borrowed_of_ne {i : Nat} (hi : i < 6656) (h449 : i ≠ 449) (h29 : i < 29 ∨ 40 ≤ i) :
    Track.byte borrowed i = Track.byte (Track.formatted 254 0) i := by
  rw [byte_borrowed hi, if_neg h449, if_neg (by omega)]

/-- Where the address field of a sector is on the borrowed track. -/
def borrowedStart (sector : Fin 16) : Nat := if sector = 1 then 29 else sector * 409 + 40

/-- Where the data field of a sector is on the borrowed track: the one of sector 0 is that of sector
1 as well. -/
def borrowedPlace (sector : Fin 16) : Nat := if sector = 1 then 63 else Track.dataPlace sector

private theorem byte_strayAddress {i : Nat} (hi : i < 11) :
    strayAddress.byte i = if i < 3 then addressPrologue[i]?.getD 0 else
      (AddressField.encode ⟨254, 0, 1⟩).byte (i - 3) := by
  have hlength : addressPrologue.length = 3 := rfl
  rw [strayAddress, Bytes.byte_ofList, if_pos hi, getD_append, hlength, getD_toList]
  rfl

/-- The first byte of a prologue stands only once in the stray address field. -/
private theorem strayAddress_ne {i : Nat} (hi : i < 11) (h0 : i ≠ 0) :
    strayAddress.byte i ≠ 0xD5 := by
  rw [byte_strayAddress hi]
  split_ifs
  · obtain rfl | rfl : i = 1 ∨ i = 2 := by omega
    · decide
    · decide
  · exact Track.byte_encode_ne _ _

theorem mem_addressStarts_borrowed :
    start ∈ addressStarts borrowed ↔ ∃ sector, start = borrowedStart sector := by
  rw [mem_addressStarts_iff, size_borrowed]
  constructor
  · rintro ⟨hlt, hoccurs⟩
    obtain ⟨hfirst, hlast⟩ := Track.byte_of_occursAt hoccurs
    -- A prologue starts with D5: only the two places that were altered differ from the fresh track.
    by_cases h449 : start = 449
    · rw [byte_borrowed hlt, if_pos h449] at hfirst
      exact absurd hfirst (by decide)
    by_cases hstray : 29 ≤ start ∧ start < 40
    · rw [byte_borrowed hlt, if_neg h449, if_pos hstray] at hfirst
      by_cases h29 : start = 29
      · exact ⟨1, h29⟩
      · exact absurd hfirst (strayAddress_ne (by omega) (by omega))
    · rw [byte_borrowed_of_ne hlt h449 (by omega)] at hfirst
      obtain ⟨s, hs, heq | heq⟩ := formatted_fresh.byte_eq_prologue hlt hfirst
      · refine ⟨⟨s, hs⟩, heq.trans (if_neg fun h1 => h449 ?_).symm⟩
        have : s = 1 := congrArg Fin.val h1
        omega
      · -- A data field starts here.
        have hkept : Track.byte borrowed (start + 2) = _ :=
          byte_borrowed_of_ne (by omega) (by omega) (by omega)
        have hdata := (Track.byte_of_occursAt (formatted_fresh.occursAt_data hs)).2
        rw [← heq] at hdata
        rw [hkept, hdata] at hlast
        exact absurd hlast (by decide)
  · rintro ⟨sector, rfl⟩
    have hs := sector.isLt
    by_cases h1 : sector = 1
    · subst h1
      refine ⟨by decide, ?_⟩
      have hstray {i : Nat} (hi : i < 3) :
          Track.byte borrowed (29 + i) = addressPrologue[i]?.getD 0 := by
        rw [byte_borrowed (by omega), if_neg (by omega), if_pos (by omega), Nat.add_sub_cancel_left,
          byte_strayAddress (by omega), if_pos hi]
      rw [borrowedStart, if_pos rfl]
      simp only [addressPrologue, Track.occursAt, Nat.reduceAdd]
      rw [hstray (show 0 < 3 by decide), hstray (show 1 < 3 by decide), hstray (show 2 < 3 by decide)]
      rfl
    · have hne : sector.val ≠ 1 := fun h => h1 (Fin.ext h)
      rw [borrowedStart, if_neg h1]
      refine ⟨by omega, ?_⟩
      have hfresh := formatted_fresh.occursAt_address hs
      rwa [addressPrologue, occursAt_congr _ _ _ fun i hlo hhi => byte_borrowed_of_ne (by omega)
        (by omega) (by omega)]

/-- The stray address field leads to the data field behind the address field of sector 0. -/
theorem examine_stray : examine 0 borrowed 29 = .ok (1, 63) := by
  have hkept {i : Nat} (hlo : 40 ≤ i) (hhi : i < 449) :
      Track.byte borrowed i = Track.byte (Track.formatted 254 0) i :=
    byte_borrowed_of_ne (by omega) (by omega) (.inr hlo)
  have haddress : Track.field 8 borrowed (29 + 3) = AddressField.encode ⟨254, 0, 1⟩ := by
    refine Bytes.ext_byte fun i hi => ?_
    rw [Track.field, Bytes.byte_tabulate, if_pos hi, byte_borrowed (by omega), if_neg (by omega),
      if_pos (by omega), byte_strayAddress (by omega), if_neg (by omega)]
    congr 1
    omega
  have hdata : Track.occursAt borrowed 60 dataPrologue :=
    (occursAt_congr _ _ _ fun i hlo hhi => hkept (by omega) (by omega)).trans
      (formatted_fresh.occursAt_data (show 0 < 16 by decide))
  have hleast : IsLeast (dataGaps borrowed 29) 20 := by
    refine ⟨⟨by decide, hdata⟩, fun gap hgap => ?_⟩
    by_contra hbefore
    obtain ⟨hfirst, hlast⟩ := Track.byte_of_occursAt hgap.2
    rw [hkept (by omega) (by omega)] at hfirst hlast
    obtain ⟨s, hs, heq⟩ := formatted_fresh.byte_eq_prologue
      (show 29 + 11 + gap < 6656 by omega) hfirst
    -- Before the data field there is only the prologue of the address field of sector 0.
    obtain rfl : gap = 0 := by omega
    have hother := (Track.byte_of_occursAt
      (formatted_fresh.occursAt_address (show 0 < 16 by decide))).2
    exact absurd (hlast.symm.trans hother) (by decide)
  refine examine_eq_ok_iff.mpr ⟨⟨254, 0, 1⟩, ?_, rfl, rfl, 20, hleast, ?_⟩
  · rw [haddress, AddressField.decode_encode]
  · rw [size_borrowed]

theorem examine_borrowed (sector : Fin 16) :
    examine 0 borrowed (borrowedStart sector) = .ok (sector, borrowedPlace sector) := by
  by_cases h1 : sector = 1
  · subst h1
    exact examine_stray
  · have hs := sector.isLt
    have hne : sector.val ≠ 1 := fun h => h1 (Fin.ext h)
    have hsame : examine 0 borrowed (sector * 409 + 40) =
        examine 0 (Track.formatted 254 0) (sector * 409 + 40) :=
      examine_congr (size_borrowed.trans formatted_fresh.size_eq.symm) fun i hlo hhi =>
        byte_borrowed_of_ne (by omega) (by omega) (by omega)
    rw [borrowedStart, borrowedPlace, if_neg h1, if_neg h1, hsame]
    exact formatted_fresh.examine_eq hs

/-- The borrowed track is intact, and its sectors 0 and 1 have one data field. -/
theorem intact_borrowed : Intact 0 borrowed ∧
    ∀ sector, (ofTrack 0 borrowed).index.get sector = some (borrowedPlace sector) :=
  intact_of_examine mem_addressStarts_borrowed examine_borrowed

/-- What is read of the data field of sectors 0 and 1. -/
theorem decode_borrowed :
    decodeSector (Track.field 343 borrowed 63) = .ok ⟨Bytes.zero 256, true⟩ := by
  have hfield : Track.field 343 borrowed 63 = Track.field 343 (Track.formatted 254 0) 63 := by
    refine Bytes.ext_byte fun i hi => ?_
    rw [Track.field, Track.field, Bytes.byte_tabulate, Bytes.byte_tabulate, if_pos hi, if_pos hi]
    exact byte_borrowed_of_ne (by omega) (by omega) (by omega)
  have hplace : Track.dataPlace 0 = 63 := rfl
  rw [hfield, ← hplace]
  exact formatted_fresh.decode_field (by decide)

end Diskette.Gcr.Survey
