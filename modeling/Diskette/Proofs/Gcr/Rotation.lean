import Diskette.Proofs.Bytes
import Diskette.Proofs.Gcr.FormattedTrack
import Diskette.Proofs.Gcr.Survey
import Mathlib.Data.Int.ModEq
import Mathlib.Data.List.Rotate

/-!
# Rotated tracks

A track is a circle, and where an image cuts it does not matter: what stands at a place of a track
stands `k` places before it on the track that is rotated by `k`.

* `turned_rotateLeft`, `Turned.symm`: rotating a track, and rotating it back.
* `Turned.occursAt_eq`, `Turned.field_eq`: what is read from a rotated track.
* `intact_iff_of_turned`: a rotated track is intact if the track is.
* `leadsTo_of_turned`: where the data fields of a rotated track are.
* `report_rotateLeft`: the strict report of a rotated track.
-/

namespace Diskette.Gcr

namespace Track

/-- The track that starts with byte `k` of this one. -/
def rotateLeft (track : ByteArray) (k : Nat) : ByteArray := (track.toList.rotate k).toByteArray

@[simp] theorem size_rotateLeft (track : ByteArray) (k : Nat) :
    (rotateLeft track k).size = track.size := by
  rw [rotateLeft, List.size_toByteArray, List.length_rotate, length_toList]

/-- Two tracks are the same circle, the second one cut `k` places further on. -/
structure Turned (track turned : ByteArray) (k : Nat) : Prop where
  size_eq : turned.size = track.size
  byte_eq (i : Nat) : byte turned i = byte track (i + k)

theorem byte_of_size_eq_zero {track : ByteArray} (h : track.size = 0) (i : Nat) :
    byte track i = 0 := byteAt_of_size_le (by omega)

theorem turned_rotateLeft (track : ByteArray) (k : Nat) : Turned track (rotateLeft track k) k where
  size_eq := size_rotateLeft track k
  byte_eq i := by
    by_cases hzero : track.size = 0
    · rw [byte_of_size_eq_zero hzero, byte_of_size_eq_zero (by rw [size_rotateLeft, hzero])]
    · have hlt : i % track.size < track.toList.length := by
        rw [length_toList]
        exact Nat.mod_lt _ (Nat.pos_of_ne_zero hzero)
      rw [byte, size_rotateLeft, rotateLeft, byteAt_toByteArray, List.getElem?_rotate hlt,
        getD_toList, length_toList, Nat.mod_add_mod, byte]

variable {track turned : ByteArray} {k : Nat}

/-- Rotating on to a whole turn gives the track back. -/
theorem Turned.symm (h : Turned track turned k) :
    Turned turned track (track.size - k % track.size) where
  size_eq := h.size_eq.symm
  byte_eq i := by
    rw [h.byte_eq]
    by_cases hzero : track.size = 0
    · rw [byte_of_size_eq_zero hzero, byte_of_size_eq_zero hzero]
    · have hlt := Nat.mod_lt k (Nat.pos_of_ne_zero hzero)
      have hturn : i + (track.size - k % track.size) + k =
          i + track.size * (k / track.size + 1) := by
        have := Nat.mod_add_div k track.size
        rw [Nat.mul_add, Nat.mul_one]
        omega
      rw [hturn, ← byte_mod track (i + _), Nat.add_mul_mod_self_left, byte_mod]

/-- Where a place of a rotated track is on the track. -/
theorem Turned.byte_add (h : Turned track turned k) (place i : Nat) :
    byte turned (place + i) = byte track ((place + k) % track.size + i) := by
  rw [h.byte_eq, ← byte_mod, ← byte_mod track (_ % _ + _), Nat.mod_add_mod, Nat.add_right_comm]

theorem Turned.occursAt_eq (h : Turned track turned k) (place i : Nat) (pattern : List UInt8) :
    occursAt turned (place + i) pattern =
      occursAt track ((place + k) % track.size + i) pattern := by
  induction pattern generalizing i with
  | nil => rfl
  | cons b pattern ih => rw [occursAt, occursAt, h.byte_add, Nat.add_assoc, ih, Nat.add_assoc]

theorem Turned.field_eq (h : Turned track turned k) (n place i : Nat) :
    field n turned (place + i) = field n track ((place + k) % track.size + i) := by
  rw [field, field]
  simp only [Nat.add_assoc place, h.byte_add, Nat.add_assoc]

end Track

namespace Survey

open Track

variable {number k start place : Nat} {track turned : ByteArray} {sector : Fin 16}

/-! ## Address fields of a rotated track -/

theorem isAddress_iff_of_turned (h : Turned track turned k) {address : AddressField} :
    IsAddress turned start address ↔
      start < track.size ∧ IsAddress track ((start + k) % track.size) address := by
  have hoccurs := h.occursAt_eq start 0 addressPrologue
  have hfield := h.field_eq 8 start 3
  constructor
  · rintro ⟨hlt, hprologue, hdecode⟩
    rw [h.size_eq] at hlt
    exact ⟨hlt, Nat.mod_lt _ (by omega), hoccurs ▸ hprologue, hfield ▸ hdecode⟩
  · rintro ⟨hlt, -, hprologue, hdecode⟩
    exact ⟨h.size_eq ▸ hlt, hoccurs.trans hprologue, hfield ▸ hdecode⟩

theorem dataGaps_of_turned (h : Turned track turned k) :
    dataGaps turned start = dataGaps track ((start + k) % track.size) := by
  unfold dataGaps
  simp only [Nat.add_assoc start, h.occursAt_eq, Nat.add_assoc]

theorem usable_iff_of_turned (h : Turned track turned k) :
    Usable number turned sector start ↔
      start < track.size ∧ Usable number track sector ((start + k) % track.size) := by
  simp only [Usable, isAddress_iff_of_turned h, dataGaps_of_turned h, and_assoc, exists_and_left]

/-- The data fields are where they were, `k` places before. -/
theorem leadsTo_of_turned (h : Turned track turned k) (hleads : LeadsTo turned start place) :
    LeadsTo track ((start + k) % track.size) ((place + k) % track.size) := by
  obtain ⟨gap, hgap, rfl⟩ := hleads
  refine ⟨gap, dataGaps_of_turned h ▸ hgap, ?_⟩
  rw [h.size_eq, Nat.mod_add_mod]
  simp only [Nat.add_assoc, Nat.mod_add_mod]
  congr 1
  omega

theorem Intact.of_turned (h : Turned track turned k) (hintact : Intact number track) :
    Intact number turned where
  usable haddress := by
    obtain ⟨hlt, hturned⟩ := (isAddress_iff_of_turned h).mp haddress
    obtain ⟨sector, husable⟩ := hintact.usable hturned
    exact ⟨sector, (usable_iff_of_turned h).mpr ⟨hlt, husable⟩⟩
  unique sector := by
    obtain ⟨start, husable, hunique⟩ := hintact.unique sector
    -- Turning back takes the one usable address field to one of the rotated track.
    refine existsUnique_of_exists_of_unique ⟨_, ((usable_iff_of_turned h.symm).mp husable).2⟩ ?_
    intro first second hfirst hsecond
    obtain ⟨hlt, hfirst⟩ := (usable_iff_of_turned h).mp hfirst
    obtain ⟨hlt', hsecond⟩ := (usable_iff_of_turned h).mp hsecond
    have hsame : first + k ≡ second + k [MOD track.size] :=
      (hunique _ hfirst).trans (hunique _ hsecond).symm
    exact (hsame.add_right_cancel' k).eq_of_lt_of_lt hlt hlt'

theorem intact_iff_of_turned (h : Turned track turned k) :
    Intact number turned ↔ Intact number track := ⟨.of_turned h.symm, .of_turned h⟩

/-- The index of a rotated track. -/
theorem exists_get_of_turned (h : Turned track turned k) (hintact : Intact number track)
    (sector : Fin 16) :
    ∃ place place', (ofTrack number track).index.get sector = some place ∧
      (ofTrack number turned).index.get sector = some place' ∧ place' < track.size ∧
      place = (place' + k) % track.size := by
  obtain ⟨start, place, husable, hleads, hget⟩ := hintact.exists_get sector
  obtain ⟨start', place', husable', hleads', hget'⟩ :=
    ((intact_iff_of_turned h).mpr hintact).exists_get sector
  obtain ⟨hlt, husable'⟩ := (usable_iff_of_turned h).mp husable'
  have hstart : start = (start' + k) % track.size :=
    (hintact.unique sector).unique husable husable'
  refine ⟨place, place', hget, hget', ?_, ?_⟩
  · obtain ⟨gap, -, rfl⟩ := hleads'
    rw [h.size_eq]
    exact Nat.mod_lt _ (by omega)
  · exact hleads.unique (hstart ▸ leadsTo_of_turned h hleads')

/-! ## Strict reports of a rotated track -/

/-- A place is `k` places before the one that it is on the track. -/
private theorem cast_eq_sub_emod {size place' : Nat} (h : place' < size) :
    (place' : ℤ) = (((place' + k) % size : Nat) - k : ℤ) % size := by
  push_cast
  rw [Int.emod_sub_emod, add_sub_cancel_right, Int.emod_eq_of_lt (by omega) (by omega)]

/-- A strict report of a rotated track succeeds if that of the track does. Each data field is then
`k` places before, and the same sector is read from it with the same checksum. -/
theorem report_rotateLeft (number : Nat) (track : ByteArray) (k : Nat) (host host' : Host) :
    ((∃ index' after',
      (report .strict number (ofTrack number (rotateLeft track k))).run host' =
        .ok index' after') ↔
      ∃ index after, (report .strict number (ofTrack number track)).run host = .ok index after) ∧
    ∀ index after index' after',
      (report .strict number (ofTrack number track)).run host = .ok index after →
      (report .strict number (ofTrack number (rotateLeft track k))).run host' = .ok index' after' →
      ∀ sector, ∃ place place', index.get sector = some place ∧ index'.get sector = some place' ∧
        (place' : ℤ) = (place - k : ℤ) % track.size ∧
        decodeSector (field 343 (rotateLeft track k) place') =
          decodeSector (field 343 track place) := by
  have hturned := turned_rotateLeft track k
  refine ⟨?_, ?_⟩
  · rw [exists_run_report_strict_iff, exists_run_report_strict_iff, intact_iff_of_turned hturned]
  · intro index after index' after' hrun hrun' sector
    obtain ⟨hintact, rfl, -⟩ := run_report_strict_eq_ok_iff.mp hrun
    obtain ⟨-, rfl, -⟩ := run_report_strict_eq_ok_iff.mp hrun'
    obtain ⟨place, place', hget, hget', hlt, hplace⟩ := exists_get_of_turned hturned hintact sector
    refine ⟨place, place', hget, hget', ?_, ?_⟩
    · rw [hplace]
      exact cast_eq_sub_emod hlt
    · rw [hplace]
      exact congrArg decodeSector (hturned.field_eq 343 place' 0)

/-- A fresh track that is cut inside the prologue of its first sector. -/
theorem report_rotateLeft_formatted :
    ∃ index after index' after',
      (report .strict 0 (ofTrack 0 (formatted 254 0))).run .empty = .ok index after ∧
      (report .strict 0 (ofTrack 0 (rotateLeft (formatted 254 0) 41))).run .empty =
        .ok index' after' ∧
      index.get 0 = some 63 ∧ index'.get 0 = some 22 := by
  have hformatted := formatted_formatted 254 0
  have hindex : (ofTrack 0 (formatted 254 0)).index.get 0 = some 63 := by
    rw [show ofTrack 0 (formatted 254 0) = _ from hformatted.ofTrack_eq]
    rfl
  obtain ⟨hiff, hplaces⟩ := report_rotateLeft 0 (formatted 254 0) 41 .empty .empty
  obtain ⟨index, after, hrun⟩ := exists_run_report_strict_iff.mpr hformatted.intact
  obtain ⟨index', after', hrun'⟩ := hiff.mpr ⟨index, after, hrun⟩
  obtain ⟨place, place', hget, hget', hplace, -⟩ := hplaces _ _ _ _ hrun hrun' 0
  obtain ⟨-, rfl, -⟩ := run_report_strict_eq_ok_iff.mp hrun
  obtain rfl : place = 63 := Option.some.inj (hget.symm.trans hindex)
  refine ⟨_, after, index', after', hrun, hrun', hget, hget'.trans (congrArg some ?_)⟩
  rw [hformatted.size_eq, trackSize] at hplace
  omega

end Survey

end Diskette.Gcr
