import Diskette.Gcr.Track
import Mathlib.Data.Nat.ModEq
import Mathlib.Data.Set.BooleanAlgebra
import Mathlib.Data.Set.Disjoint
import Mathlib.Order.CompletePartialOrder
import Mathlib.Tactic.SplitIfs

/-!
# Fields of a track

A field is a run of places of the circle and may go past the end of the track. As long as it is not
longer than the track, no place occurs in it twice.

* `places`: the places of a field.
* `byteAt_writeField_of_notMem`: a field that is written changes no byte outside its places.
* `field_writeField_self`: it is read back.
* `field_writeField_of_disjoint`: a field with other places is left as it was.
-/

namespace Diskette.Gcr.Track

/-- The places of the `n` bytes from a place of a track of `size` bytes on. -/
def places (size n place : Nat) : Set Nat := {k | ∃ i, i < n ∧ k = (place + i) % size}

theorem add_mod_mem_places {size n i : Nat} (place : Nat) (h : i < n) :
    (place + i) % size ∈ places size n place := ⟨i, h, rfl⟩

theorem lt_of_mem_places {size n place k : Nat} (hsize : 0 < size) (h : k ∈ places size n place) :
    k < size := by
  obtain ⟨i, -, rfl⟩ := h
  exact Nat.mod_lt _ hsize

/-- Less than a turn after a place comes another one. -/
theorem add_mod_ne {size a b : Nat} (place : Nat) (h : a < b) (h' : b < a + size) :
    (place + a) % size ≠ (place + b) % size := by
  intro heq
  have hdvd : size ∣ place + b - (place + a) := (Nat.modEq_iff_dvd' (by omega)).mp heq
  have := Nat.le_of_dvd (by omega) hdvd
  omega

variable {n m place place' : Nat} {track : ByteArray}

/-! ## One byte -/

theorem byteAt_setByte (track : ByteArray) {i : Nat} (h : i < track.size) (value : UInt8) (k : Nat) :
    byteAt (setByte track i value) k = if i = k then value else byteAt track k := by
  rw [setByte, dif_pos h]
  unfold byteAt
  have hsize : (track.set i value h).size = track.size := by
    rw [← ByteArray.size_data, ByteArray.data_set, Array.size_set]
    rfl
  simp only [hsize]
  by_cases hk : k < track.size
  · rw [dif_pos hk, dif_pos hk]
    exact Array.getElem_set h (by rwa [Array.size_set])
  · rw [dif_neg hk, dif_neg hk, if_neg (by omega)]

theorem byteAt_setByte_of_ne {i k : Nat} (h : i ≠ k) (value : UInt8) :
    byteAt (setByte track i value) k = byteAt track k := by
  by_cases hi : i < track.size
  · rw [byteAt_setByte track hi, if_neg h]
  · rw [setByte, dif_neg hi]

/-! ## Writing a field -/

private theorem byteAt_writeFrom_of_ne (data : ByteArray) (place count : Nat) {k : Nat} :
    ∀ {i : Nat} {track : ByteArray},
      (∀ j, i ≤ j → j < i + count → (place + j) % track.size ≠ k) →
      byteAt (writeFrom data place count i track) k = byteAt track k := by
  induction count with
  | zero => exact fun _ => rfl
  | succ count ih =>
    intro i track h
    rw [writeFrom, ih, byteAt_setByte_of_ne (h i (Nat.le_refl i) (by omega))]
    intro j hlo hhi
    rw [size_setByte]
    exact h j (by omega) (by omega)

private theorem byteAt_writeFrom_self (data : ByteArray) (place count : Nat) {j : Nat} :
    ∀ {i : Nat} {track : ByteArray}, count ≤ track.size → i ≤ j → j < i + count →
      byteAt (writeFrom data place count i track) ((place + j) % track.size) = byteAt data j := by
  induction count with
  | zero => intro i track _ hlo hhi; omega
  | succ count ih =>
    intro i track hle hlo hhi
    have hlt : (place + i) % track.size < track.size := Nat.mod_lt _ (by omega)
    rw [writeFrom]
    by_cases hij : i = j
    · subst hij
      -- What is written after byte `i` goes to other places.
      rw [byteAt_writeFrom_of_ne, byteAt_setByte track hlt, if_pos rfl]
      intro k hk hk'
      rw [size_setByte]
      exact (add_mod_ne place (by omega) (by omega)).symm
    · have hrest {track' : ByteArray} (hsize : track'.size = track.size) :
          byteAt (writeFrom data place count (i + 1) track') ((place + j) % track.size) =
            byteAt data j := by
        rw [← hsize]
        exact ih (by omega) (by omega) (by omega)
      exact hrest (size_setByte ..)

/-- A field that is written changes no byte outside its places. -/
theorem byteAt_writeField_of_notMem {k : Nat} (data : Bytes n) (h : k ∉ places track.size n place) :
    byteAt (writeField track place data) k = byteAt track k :=
  byteAt_writeFrom_of_ne data.data place n fun j _ hj heq => h ⟨j, by omega, heq.symm⟩

theorem byte_writeField_self {i : Nat} (hle : n ≤ track.size) (data : Bytes n) (hi : i < n) :
    byte (writeField track place data) (place + i) = data.byte i := by
  rw [byte, size_writeField]
  exact byteAt_writeFrom_self data.data place n hle (Nat.zero_le i) (by omega)

/-- A field that was written is read back. -/
theorem field_writeField_self (hle : n ≤ track.size) (data : Bytes n) :
    field n (writeField track place data) place = data := by
  refine Bytes.ext_byte fun i hi => ?_
  rw [field, Bytes.byte_tabulate, if_pos hi, byte_writeField_self hle data hi]

/-- A field with other places is left as it was. -/
theorem field_writeField_of_disjoint (data : Bytes n)
    (h : Disjoint (places track.size n place) (places track.size m place')) :
    field m (writeField track place data) place' = field m track place' := by
  refine Bytes.ext_byte fun i hi => ?_
  rw [field, field, Bytes.byte_tabulate, Bytes.byte_tabulate, if_pos hi, if_pos hi, byte,
    size_writeField]
  exact byteAt_writeField_of_notMem data
    (Set.disjoint_right.mp h (add_mod_mem_places place' hi))

/-- A field that ends where the track does or before. -/
theorem byteAt_writeField (h : place + n ≤ track.size) (data : Bytes n) (k : Nat) :
    byteAt (writeField track place data) k =
      if place ≤ k ∧ k < place + n then data.byte (k - place) else byteAt track k := by
  split_ifs with hk
  · have hle : n ≤ track.size := by omega
    have hbyte : byte (writeField track place data) (place + (k - place)) = data.byte (k - place) :=
      byte_writeField_self hle data (by omega)
    rwa [byte, size_writeField, Nat.add_sub_cancel' hk.1, Nat.mod_eq_of_lt (by omega)] at hbyte
  · refine byteAt_writeField_of_notMem data ?_
    rintro ⟨i, hi, rfl⟩
    rw [Nat.mod_eq_of_lt (by omega)] at hk
    omega

end Diskette.Gcr.Track
