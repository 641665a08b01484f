import Diskette.Gcr.Survey
import Mathlib.Data.List.Nodup
import Mathlib.Data.List.Pairwise
import Mathlib.Order.Bounds.Basic

/-!
# What a survey finds

What a survey should find on a track is said without it: `Usable` are the address fields of a sector
that a data field follows, and of several the first one counts. A track is `Intact` if every address
field is usable and each sector has exactly one.

* `examine_eq_ok_iff`: what makes an address field usable.
* `get_index_step`, `sound_step`: what one address field adds to a survey.
* `get_index_foldl_step`, `sound_foldl_step`: what all of them make of it.
* `finds_ofTrack`: the index of a survey has the first usable address field of each sector.
* `exists_run_report_strict_iff`: a strict report succeeds on intact tracks only.
* `report_ofTrack`: what either policy makes of any track.
-/

namespace Diskette.Gcr.Survey

variable {number : Nat} {track : ByteArray} {start place : Nat} {sector : Fin 16}

/-! ## Address fields -/

/-- An address field starts at `start`: a prologue, and eight bytes with the right checksum. -/
structure IsAddress (track : ByteArray) (start : Nat) (address : AddressField) : Prop where
  lt_size : start < track.size
  occurs : Track.occursAt track start addressPrologue
  decode_eq : AddressField.decode (Track.field 8 track (start + 3)) = .ok address

/-- How far behind the address field at `start` data prologues start, within the window. -/
def dataGaps (track : ByteArray) (start : Nat) : Set Nat :=
  {gap | gap < dataWindow ∧ Track.occursAt track (start + 11 + gap) dataPrologue}

/-- The address field at `start` is one of this sector on track `number`, and a data field follows
it. -/
def Usable (number : Nat) (track : ByteArray) (sector : Fin 16) (start : Nat) : Prop :=
  ∃ address, IsAddress track start address ∧ address.track.toNat = number ∧
    address.sector.toNat = sector ∧ (dataGaps track start).Nonempty

/-- The first data prologue behind the address field at `start` ends before `place`. -/
def LeadsTo (track : ByteArray) (start place : Nat) : Prop :=
  ∃ gap, IsLeast (dataGaps track start) gap ∧ place = (start + 11 + gap + 3) % track.size

/-- What an index should have for a sector: the place to which its first usable address field leads,
nothing if there is none. -/
def Finds (number : Nat) (track : ByteArray) (sector : Fin 16) : Option Nat → Prop
  | some place => ∃ start, IsLeast {start | Usable number track sector start} start ∧
      LeadsTo track start place
  | none => ∀ start, ¬ Usable number track sector start

/-- Every address field of the track is usable, and each sector has exactly one. -/
structure Intact (number : Nat) (track : ByteArray) : Prop where
  usable {start : Nat} {address : AddressField} (h : IsAddress track start address) :
    ∃ sector, Usable number track sector start
  unique (sector : Fin 16) : ∃! start, Usable number track sector start

theorem mem_addressStarts_iff :
    start ∈ addressStarts track ↔ start < track.size ∧ Track.occursAt track start addressPrologue := by
  rw [addressStarts, List.mem_filter, List.mem_range]

theorem dataPrologue?_eq_some_iff {found : Nat} :
    dataPrologue? track (start + 11) = some found ↔
      ∃ gap, IsLeast (dataGaps track start) gap ∧ found = start + 11 + gap := by
  rw [dataPrologue?, List.find?_map, Option.map_eq_some_iff]
  refine exists_congr fun gap => and_congr ?_ eq_comm
  rw [List.find?_range_eq_some, List.mem_range]
  constructor
  · rintro ⟨hoccurs, hlt, hfirst⟩
    refine ⟨⟨hlt, hoccurs⟩, fun other hother => Nat.not_lt.mp fun hbefore => ?_⟩
    have := hfirst other hbefore
    rw [Bool.not_eq_true', ← Bool.not_eq_true] at this
    exact this hother.2
  · rintro ⟨⟨hlt, hoccurs⟩, hleast⟩
    refine ⟨hoccurs, hlt, fun other hbefore => ?_⟩
    rw [Bool.not_eq_true', ← Bool.not_eq_true]
    exact fun hother => absurd (hleast ⟨Nat.lt_trans hbefore hlt, hother⟩) (Nat.not_le.mpr hbefore)

theorem dataPrologue?_eq_none_iff :
    dataPrologue? track (start + 11) = none ↔ ¬ (dataGaps track start).Nonempty := by
  rw [dataPrologue?, List.find?_map, Option.map_eq_none_iff, List.find?_range_eq_none]
  constructor
  · rintro hnone ⟨gap, hlt, hoccurs⟩
    have := hnone gap hlt
    rw [Bool.not_eq_true', ← Bool.not_eq_true] at this
    exact this hoccurs
  · intro hempty gap hlt
    rw [Bool.not_eq_true', ← Bool.not_eq_true]
    exact fun hoccurs => hempty ⟨gap, hlt, hoccurs⟩

/-- An address field is good if it can be read, names the track, and a data field follows it. -/
theorem examine_eq_ok_iff :
    examine number track start = .ok (sector, place) ↔
      ∃ address, AddressField.decode (Track.field 8 track (start + 3)) = .ok address ∧
        address.track.toNat = number ∧ address.sector.toNat = sector ∧
        LeadsTo track start place := by
  unfold examine
  cases hdecode : AddressField.decode (Track.field 8 track (start + 3)) with
  | error cause => simp
  | ok address =>
    simp only [Except.ok.injEq, exists_eq_left']
    by_cases htrack : address.track.toNat = number
    · by_cases hsector : address.sector.toNat < 16
      · simp only [htrack, ne_eq, not_true_eq_false, if_false, hsector, dite_true, true_and]
        cases hfound : dataPrologue? track (start + 11) with
        | none =>
          have hempty := dataPrologue?_eq_none_iff.mp hfound
          simp only [reduceCtorEq, false_iff, not_and]
          rintro - ⟨gap, hgap, -⟩
          exact hempty ⟨gap, hgap.1⟩
        | some found =>
          obtain ⟨gap, hgap, rfl⟩ := dataPrologue?_eq_some_iff.mp hfound
          simp only [Except.ok.injEq, Prod.mk.injEq, Fin.ext_iff]
          refine and_congr_right fun _ => ⟨fun hplace => ⟨gap, hgap, hplace.symm⟩, ?_⟩
          rintro ⟨other, hother, rfl⟩
          rw [hgap.unique hother]
      · have : address.sector.toNat ≠ sector := by omega
        simp [htrack, hsector, this]
    · simp [htrack]

theorem examine_of_decode_eq_error {cause : DiskError}
    (h : AddressField.decode (Track.field 8 track (start + 3)) = .error cause) :
    examine number track start = .error (.unreadable start cause) := by
  rw [examine, h]

/-- An address field that can be read is good, or it is damage. -/
theorem examine_of_decode_eq_ok {address : AddressField}
    (h : AddressField.decode (Track.field 8 track (start + 3)) = .ok address) :
    (∃ found, examine number track start = .ok found) ∨
      ∃ damage, examine number track start = .error (.damage damage) := by
  rw [examine, h]
  dsimp only
  split_ifs
  · exact .inr ⟨_, rfl⟩
  · cases dataPrologue? track (start + 11) with
    | none => exact .inr ⟨_, rfl⟩
    | some found => exact .inl ⟨_, rfl⟩
  · exact .inr ⟨_, rfl⟩

theorem usable_iff :
    Usable number track sector start ↔
      start ∈ addressStarts track ∧ ∃ place, examine number track start = .ok (sector, place) := by
  simp only [examine_eq_ok_iff, mem_addressStarts_iff]
  constructor
  · rintro ⟨address, haddress, htrack, hsector, hgaps⟩
    cases hfound : dataPrologue? track (start + 11) with
    | none => exact absurd hgaps (dataPrologue?_eq_none_iff.mp hfound)
    | some found =>
      obtain ⟨gap, hgap, -⟩ := dataPrologue?_eq_some_iff.mp hfound
      exact ⟨⟨haddress.lt_size, haddress.occurs⟩, _, address, haddress.decode_eq, htrack, hsector,
        gap, hgap, rfl⟩
  · rintro ⟨⟨hlt, hoccurs⟩, place, address, hdecode, htrack, hsector, gap, hgap, -⟩
    exact ⟨address, ⟨hlt, hoccurs, hdecode⟩, htrack, hsector, gap, hgap.1⟩

/-- Damage is an address field that can be read and is not usable. -/
theorem examine_ne_damage_iff (hstart : start ∈ addressStarts track) :
    (∀ damage, examine number track start ≠ .error (.damage damage)) ↔
      ∀ address, IsAddress track start address → ∃ sector, Usable number track sector start := by
  have hoccurs := mem_addressStarts_iff.mp hstart
  cases hdecode : AddressField.decode (Track.field 8 track (start + 3)) with
  | error cause =>
    have hskipped : examine number track start = .error (.unreadable start cause) :=
      examine_of_decode_eq_error hdecode
    refine ⟨fun _ address haddress => ?_, fun _ damage hdamage => ?_⟩
    · rw [haddress.decode_eq] at hdecode
      cases hdecode
    · rw [hskipped] at hdamage
      cases hdamage
  | ok address =>
    constructor
    · intro hundamaged _ _
      obtain ⟨⟨sector, place⟩, hgood⟩ | ⟨damage, hdamage⟩ := examine_of_decode_eq_ok hdecode
      · exact ⟨sector, usable_iff.mpr ⟨hstart, place, hgood⟩⟩
      · exact absurd hdamage (hundamaged damage)
    · intro husable damage hdamage
      obtain ⟨sector, hsector⟩ := husable address ⟨hoccurs.1, hoccurs.2, hdecode⟩
      obtain ⟨-, place, hgood⟩ := usable_iff.mp hsector
      rw [hgood] at hdamage
      cases hdamage

/-! ## One address field -/

/-- The place that the address field at `start` adds to the index of a sector. -/
def placeOf? (number : Nat) (track : ByteArray) (sector : Fin 16) (start : Nat) : Option Nat :=
  match examine number track start with
  | .ok (found, place) => if found = sector then some place else none
  | .error _ => none

theorem placeOf?_eq_some_iff :
    placeOf? number track sector start = some place ↔
      examine number track start = .ok (sector, place) := by
  unfold placeOf?
  cases examine number track start with
  | error finding => simp
  | ok found =>
    obtain ⟨found, place'⟩ := found
    by_cases h : found = sector
    · simp [h]
    · simp [h]

theorem placeOf?_eq_none_iff :
    placeOf? number track sector start = none ↔
      ∀ place, examine number track start ≠ .ok (sector, place) := by
  rw [Option.eq_none_iff_forall_ne_some]
  exact forall_congr' fun place => not_congr placeOf?_eq_some_iff

/-- No damage was met. -/
def Sound (survey : Survey) : Prop := ∀ damage, Finding.damage damage ∉ survey.findings

variable {survey : Survey}

private theorem get_set_self (index : SectorIndex) (sector : Fin 16) (entry : Option Nat) :
    (index.set sector.val entry sector.isLt).get sector = entry := Vector.getElem_set_self ..

private theorem get_set_of_ne {index : SectorIndex} {found : Fin 16} (h : found ≠ sector)
    (entry : Option Nat) : (index.set found.val entry found.isLt).get sector = index.get sector :=
  Vector.getElem_set_ne _ _ fun hval => h (Fin.ext hval)

/-- The first address field of a sector counts. -/
theorem get_index_step (start : Nat) :
    (step number track survey start).index.get sector =
      (survey.index.get sector).or (placeOf? number track sector start) := by
  unfold step placeOf?
  cases examine number track start with
  | error finding => rw [Option.or_none]
  | ok found =>
    obtain ⟨found, place⟩ := found
    dsimp only
    by_cases h : found = sector
    · subst h
      rw [if_pos rfl]
      cases hfound : survey.index.get found with
      | some known => rw [Option.or_some, hfound]; rfl
      | none => rw [Option.none_or, get_set_self]
    · rw [if_neg h, Option.or_none]
      cases survey.index.get found with
      | some known => rfl
      | none => exact get_set_of_ne h _

/-- An address field adds no damage if it is none by itself and no second one of its sector. -/
theorem sound_step (start : Nat) :
    Sound (step number track survey start) ↔ Sound survey ∧
      (∀ damage, examine number track start ≠ .error (.damage damage)) ∧
      ∀ sector place, examine number track start = .ok (sector, place) →
        survey.index.get sector = none := by
  have hpush (damage : TrackDamage) :
      ¬ ∀ other, Finding.damage other ∉ survey.findings.push (.damage damage) :=
    fun h => h damage Array.mem_push_self
  unfold step Sound
  cases examine number track start with
  | error finding =>
    cases finding with
    | unreadable => simp
    | damage damage => exact iff_of_false (hpush damage) fun h => h.2.1 damage rfl
  | ok found =>
    obtain ⟨found, place⟩ := found
    dsimp only
    cases hfound : survey.index.get found with
    | none => simp [hfound]
    | some known =>
      refine iff_of_false (hpush _) fun h => ?_
      rw [h.2.2 found place rfl] at hfound
      cases hfound

/-! ## All address fields -/

theorem get_index_foldl_step (starts : List Nat) :
    (starts.foldl (step number track) survey).index.get sector =
      (survey.index.get sector).or (starts.findSome? (placeOf? number track sector)) := by
  induction starts generalizing survey with
  | nil => rw [List.foldl_nil, List.findSome?_nil, Option.or_none]
  | cons start rest ih =>
    rw [List.foldl_cons, ih, get_index_step, List.findSome?_cons, Option.or_assoc]
    cases placeOf? number track sector start with
    | none => rfl
    | some place => rfl

/-- Two address fields are of different sectors. -/
def Distinct (number : Nat) (track : ByteArray) (start other : Nat) : Prop :=
  ∀ sector place place', examine number track start = .ok (sector, place) →
    examine number track other ≠ .ok (sector, place')

/-- The address fields are no damage if none is by itself and they are of different sectors, which
the survey did not know. -/
theorem sound_foldl_step (starts : List Nat) :
    Sound (starts.foldl (step number track) survey) ↔ Sound survey ∧
      (∀ start ∈ starts, ∀ damage, examine number track start ≠ .error (.damage damage)) ∧
      (∀ start ∈ starts, ∀ sector place, examine number track start = .ok (sector, place) →
        survey.index.get sector = none) ∧
      starts.Pairwise (Distinct number track) := by
  induction starts generalizing survey with
  | nil => simp
  | cons start rest ih =>
    -- After the first address field the survey knows one sector more, that of this field.
    have hindex : (∀ other ∈ rest, ∀ sector place,
          examine number track other = .ok (sector, place) →
          (step number track survey start).index.get sector = none) ↔
        (∀ other ∈ rest, ∀ sector place, examine number track other = .ok (sector, place) →
          survey.index.get sector = none) ∧
        ∀ other ∈ rest, Distinct number track start other := by
      simp only [get_index_step, Option.or_eq_none_iff, placeOf?_eq_none_iff]
      constructor
      · exact fun h => ⟨fun other hother sector place hgood => (h other hother sector place hgood).1,
          fun other hother sector place place' hstart hgood =>
            (h other hother sector place' hgood).2 place hstart⟩
      · exact fun ⟨hknown, hdistinct⟩ other hother sector place hgood =>
          ⟨hknown other hother sector place hgood, fun place' hstart =>
            hdistinct other hother sector place' place hstart hgood⟩
    rw [List.foldl_cons, ih, sound_step, hindex, List.forall_mem_cons, List.forall_mem_cons,
      List.pairwise_cons]
    tauto

/-! ## The survey -/

theorem pairwise_addressStarts (track : ByteArray) : (addressStarts track).Pairwise (· < ·) :=
  List.pairwise_lt_range.filter _

theorem LeadsTo.unique {place' : Nat} (h : LeadsTo track start place)
    (h' : LeadsTo track start place') : place = place' := by
  obtain ⟨gap, hgap, rfl⟩ := h
  obtain ⟨gap', hgap', rfl⟩ := h'
  rw [hgap.unique hgap']

/-- The index of a survey has the place to which the first usable address field of a sector leads. -/
theorem finds_ofTrack (number : Nat) (track : ByteArray) (sector : Fin 16) :
    Finds number track sector ((ofTrack number track).index.get sector) := by
  have hindex : (ofTrack number track).index.get sector =
      (addressStarts track).findSome? (placeOf? number track sector) := by
    have hnone : (Vector.replicate 16 (none : Option Nat)).get sector = none :=
      Vector.getElem_replicate ..
    rw [ofTrack, get_index_foldl_step, hnone, Option.none_or]
  rw [hindex]
  cases hfound : (addressStarts track).findSome? (placeOf? number track sector) with
  | none =>
    intro start husable
    obtain ⟨hmem, place, hgood⟩ := usable_iff.mp husable
    exact placeOf?_eq_none_iff.mp (List.findSome?_eq_none_iff.mp hfound start hmem) place hgood
  | some place =>
    obtain ⟨before, start, after, hsplit, hplace, hbefore⟩ := List.findSome?_eq_some_iff.mp hfound
    have hgood := placeOf?_eq_some_iff.mp hplace
    have hmem : start ∈ addressStarts track := by simp [hsplit]
    obtain ⟨_, -, -, -, hleads⟩ := examine_eq_ok_iff.mp hgood
    refine ⟨start, ⟨usable_iff.mpr ⟨hmem, place, hgood⟩, fun other husable => ?_⟩, hleads⟩
    obtain ⟨hother, place', hgood'⟩ := usable_iff.mp husable
    -- Address fields are met in order, so the one that counts is the first of the track.
    have hsorted := hsplit ▸ pairwise_addressStarts track
    rw [hsplit, List.mem_append, List.mem_cons] at hother
    obtain hother | rfl | hother := hother
    · exact absurd hgood' (placeOf?_eq_none_iff.mp (hbefore other hother) place')
    · exact Nat.le_refl _
    · exact Nat.le_of_lt ((List.pairwise_cons.mp (List.pairwise_append.mp hsorted).2.1).1 other hother)

instance : Std.Symm (Distinct number track) :=
  ⟨fun _ _ h sector place place' hgood hgood' => h sector place' place hgood' hgood⟩

/-- The address fields are of different sectors if no sector has two usable ones. -/
theorem pairwise_distinct_iff :
    (addressStarts track).Pairwise (Distinct number track) ↔ ∀ sector start other,
      Usable number track sector start → Usable number track sector other → start = other := by
  have hnodup : (addressStarts track).Nodup := (pairwise_addressStarts track).imp Nat.ne_of_lt
  constructor
  · intro hpairwise sector start other hstart hother
    obtain ⟨hmem, place, hgood⟩ := usable_iff.mp hstart
    obtain ⟨hmem', place', hgood'⟩ := usable_iff.mp hother
    by_contra hne
    exact hpairwise.forall hmem hmem' hne sector place place' hgood hgood'
  · intro hunique
    refine hnodup.pairwise_of_forall_ne fun start hmem other hmem' hne sector place place' hgood
      hgood' => hne ?_
    exact hunique sector start other (usable_iff.mpr ⟨hmem, place, hgood⟩)
      (usable_iff.mpr ⟨hmem', place', hgood'⟩)

theorem missing_eq_nil_iff {index : SectorIndex} :
    missing index = [] ↔ ∀ sector, index.get sector ≠ none := by
  rw [missing, List.filterMap_eq_nil_iff]
  exact ⟨fun h sector hnone => by simpa [hnone] using h sector (List.mem_finRange sector),
    fun h sector _ => by simp [h sector]⟩

/-- A survey meets no damage exactly if the track is intact. -/
theorem sound_ofTrack_iff : Sound (ofTrack number track) ↔ Intact number track := by
  have hmissing (sectors : List Nat) : (∀ damage, Finding.damage damage ∉
      (sectors.map fun sector => Finding.damage (.missingSector sector)).toArray) ↔
      sectors = [] := by
    refine ⟨fun h => List.eq_nil_iff_forall_not_mem.mpr fun sector hmem => ?_, fun h => by simp [h]⟩
    exact h (.missingSector sector) (List.mem_toArray.mpr (List.mem_map.mpr ⟨sector, hmem, rfl⟩))
  -- Damage is met on the way around the track or, as a missing sector, at its end.
  have hsplit : Sound (ofTrack number track) ↔
      Sound ((addressStarts track).foldl (step number track) ⟨Vector.replicate 16 none, #[]⟩) ∧
        ∀ sector, (ofTrack number track).index.get sector ≠ none := by
    rw [← missing_eq_nil_iff, ← hmissing]
    simp only [Sound, ofTrack, Array.mem_append, not_or, forall_and]
  have hfound (sector : Fin 16) : (ofTrack number track).index.get sector ≠ none ↔
      ∃ start, Usable number track sector start := by
    have hfinds := finds_ofTrack number track sector
    cases hget : (ofTrack number track).index.get sector with
    | none =>
      rw [hget] at hfinds
      refine iff_of_false (fun h => h rfl) ?_
      rintro ⟨start, husable⟩
      exact hfinds start husable
    | some place =>
      rw [hget] at hfinds
      obtain ⟨start, hleast, -⟩ := hfinds
      exact iff_of_true (Option.some_ne_none place) ⟨start, hleast.1⟩
  rw [hsplit, sound_foldl_step, pairwise_distinct_iff]
  constructor
  · rintro ⟨⟨-, hdamage, -, hunique⟩, hall⟩
    refine ⟨fun haddress => ?_, fun sector => ?_⟩
    · have hmem := mem_addressStarts_iff.mpr ⟨haddress.lt_size, haddress.occurs⟩
      exact (examine_ne_damage_iff hmem).mp (hdamage _ hmem) _ haddress
    · obtain ⟨start, husable⟩ := (hfound sector).mp (hall sector)
      exact ⟨start, husable, fun other hother => hunique sector other start hother husable⟩
  · intro hintact
    refine ⟨⟨fun _ => Array.not_mem_empty _, fun start hmem => ?_,
      fun _ _ _ _ _ => Vector.getElem_replicate ..,
      fun sector start other => (hintact.unique sector).unique⟩, fun sector => ?_⟩
    · exact (examine_ne_damage_iff hmem).mpr fun address => hintact.usable
    · exact (hfound sector).mpr (hintact.unique sector).exists

/-- On an intact track every sector is found. -/
theorem Intact.exists_get (h : Intact number track) (sector : Fin 16) :
    ∃ start place, Usable number track sector start ∧ LeadsTo track start place ∧
      (ofTrack number track).index.get sector = some place := by
  have hfinds := finds_ofTrack number track sector
  cases hget : (ofTrack number track).index.get sector with
  | none =>
    rw [hget] at hfinds
    obtain ⟨start, husable⟩ := (h.unique sector).exists
    exact absurd husable (hfinds start)
  | some place =>
    rw [hget] at hfinds
    obtain ⟨start, hleast, hleads⟩ := hfinds
    exact ⟨start, place, hleast.1, hleads, rfl⟩

/-! ## Reports -/

/-- Without damage the policies do the same. -/
theorem run_reportAll_strict (number : Nat) {findings : List Finding}
    (h : ∀ damage, Finding.damage damage ∉ findings) (host : Host) :
    (reportAll .strict number findings).run host =
      (reportAll .bestEffort number findings).run host := by
  induction findings generalizing host with
  | nil => rfl
  | cons finding rest ih =>
    have hrest (damage : TrackDamage) : Finding.damage damage ∉ rest :=
      fun hmem => h damage (List.mem_cons_of_mem _ hmem)
    cases finding with
    | unreadable start cause => exact ih hrest _
    | damage damage => exact absurd List.mem_cons_self (h damage)

/-- Damage ends a strict report. -/
theorem not_mem_of_run_reportAll_strict {findings : List Finding} {host after : Host}
    (h : (reportAll .strict number findings).run host = .ok () after) (damage : TrackDamage) :
    Finding.damage damage ∉ findings := by
  induction findings generalizing host with
  | nil => exact List.not_mem_nil
  | cons finding rest ih =>
    cases finding with
    | unreadable start cause =>
      rw [List.mem_cons, not_or]
      exact ⟨fun he => (nomatch he), ih h⟩
    | damage damage => cases h

/-- A strict report of an intact track is the one of the other policy. -/
theorem run_report_strict (h : Intact number track) (host : Host) :
    (report .strict number (ofTrack number track)).run host =
      (report .bestEffort number (ofTrack number track)).run host := by
  have hsound (damage : TrackDamage) :
      Finding.damage damage ∉ (ofTrack number track).findings.toList :=
    fun hmem => sound_ofTrack_iff.mpr h damage (Array.mem_toList_iff.mp hmem)
  rw [report, report, EStateM.run_bind, EStateM.run_bind, run_reportAll_strict number hsound]

theorem intact_of_run_report_strict {index : SectorIndex} {host after : Host}
    (h : (report .strict number (ofTrack number track)).run host = .ok index after) :
    Intact number track := by
  rw [report, EStateM.run_bind] at h
  cases hall : (reportAll .strict number (ofTrack number track).findings.toList).run host with
  | error e after =>
    rw [hall] at h
    cases h
  | ok _ after =>
    refine sound_ofTrack_iff.mp fun damage hmem => ?_
    exact not_mem_of_run_reportAll_strict hall damage (Array.mem_toList_iff.mpr hmem)

/-- A strict report succeeds on intact tracks only, with the index of the survey. -/
theorem run_report_strict_eq_ok_iff {index : SectorIndex} {host after : Host} :
    (report .strict number (ofTrack number track)).run host = .ok index after ↔
      Intact number track ∧ index = (ofTrack number track).index ∧
        after = host.warnAll ((ofTrack number track).findings.toList.map (warningOf number)) := by
  constructor
  · intro h
    have hintact := intact_of_run_report_strict h
    rw [run_report_strict hintact, report_bestEffort] at h
    obtain ⟨rfl, rfl⟩ := EStateM.Result.ok.inj h
    exact ⟨hintact, rfl, rfl⟩
  · rintro ⟨hintact, rfl, rfl⟩
    exact (run_report_strict hintact host).trans (report_bestEffort ..)

theorem exists_run_report_strict_iff {host : Host} :
    (∃ index after, (report .strict number (ofTrack number track)).run host = .ok index after) ↔
      Intact number track :=
  ⟨fun ⟨_, _, h⟩ => intact_of_run_report_strict h,
    fun h => ⟨_, _, run_report_strict_eq_ok_iff.mpr ⟨h, rfl, rfl⟩⟩⟩

/-- A best-effort report never fails, and its index has for each sector the place behind the data
prologue of its first usable address field. A strict report succeeds exactly if the track is intact,
and is then the same. -/
theorem report_ofTrack (number : Nat) (track : ByteArray) (host : Host) :
    (∃ index after,
      (report .bestEffort number (ofTrack number track)).run host = .ok index after ∧
        ∀ sector, Finds number track sector (index.get sector)) ∧
    ((∃ index after,
      (report .strict number (ofTrack number track)).run host = .ok index after) ↔
        Intact number track) ∧
    (Intact number track → (report .strict number (ofTrack number track)).run host =
      (report .bestEffort number (ofTrack number track)).run host) :=
  ⟨⟨_, _, report_bestEffort .., finds_ofTrack number track⟩, exists_run_report_strict_iff,
    fun h => run_report_strict h host⟩

end Diskette.Gcr.Survey
