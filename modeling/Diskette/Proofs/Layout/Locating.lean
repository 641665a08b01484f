import Diskette.Proofs.Device.ReadOnly
import Diskette.Proofs.Gcr.Field

/-!
# Sectors of any nibble image

Nothing is assumed here of the disk bytes of an image. A sector is found through the index, which is
made once and then kept, so all accesses look for it at the same place, whatever was written since.

* `run_ensureIndex_eq_ok`: making the index changes no file.
* `run_locate_eq_ok_iff`, `run_locate_of_located`: when a sector is found, and that it stays there.
* `outcome_locate_eq`: what comes of looking for one, by the index alone.
* `outcome_readSector_of_located`: what is read is the data field at its place.
* `run_writeTrack_eq_ok_iff_takes`, `of_run_writeTrack_eq_error`: when a track is written, and what
  is left of one that is not.
* `readTrack_writeAt_self`, `readTrack_writeAt_of_ne`: the tracks after one was written.
-/

namespace Diskette

namespace Action

variable {σ α β : Type} {act : Action σ α} {s s' : σ}

theorem outcome_eq_ok_iff {a : α} : act.outcome s = .ok a ↔ ∃ s', act.run s = .ok a s' :=
  ⟨fun h => ⟨_, run_eq_ok_of_outcome h⟩, fun ⟨_, h⟩ => outcome_of_run_eq_ok h⟩

theorem outcome_bind_of_ok {a : α} (h : act.run s = .ok a s') (f : α → Action σ β) :
    (act >>= f).outcome s = (f a).outcome s' := by
  unfold outcome
  rw [run_bind_of_ok h]

theorem outcome_bind_of_error {e : DiskError} (h : act.outcome s = .error e) (f : α → Action σ β) :
    (act >>= f).outcome s = .error e := by
  unfold outcome
  rw [EStateM.run_bind, run_eq_error_of_outcome h]

theorem outcome_ask_bind (query : σ → Except DiskError α) (f : α → Action σ β) :
    (ask query >>= f).outcome s = query s >>= fun a => (f a).outcome s := by
  unfold outcome
  rw [EStateM.run_bind, run_ask]
  cases query s <;> rfl

theorem outcome_ofExcept_bind (r : Except DiskError α) (f : α → Action σ β) :
    (ofExcept r >>= f).outcome s = r >>= fun a => (f a).outcome s := by
  unfold outcome
  rw [EStateM.run_bind, run_ofExcept]
  cases r <;> rfl

theorem run_onSecond_eq_ok_iff {τ : Type} {act : Action τ α} {t : τ} {a : α} {state : σ × τ} :
    (onSecond act).run (s, t) = .ok a state ↔ ∃ t', act.run t = .ok a t' ∧ state = (s, t') := by
  unfold onSecond
  rw [run_zoom]
  dsimp only
  cases act.run t <;> simp [eq_comm]

end Action

namespace Layout.Nibble

open Gcr Diskette.Action

variable {layout : Nibble} {storage : Storage} {host after : Host} {state located : Nibble × Host}
  {index : Array SectorIndex} {bytes : ByteArray} {track track' sector sector' place place' : Nat}
  {data : Sector}

/-! ## The index -/

/-- The layout once this index was made. -/
def indexed (layout : Nibble) (index : Array SectorIndex) : Nibble :=
  { layout with index := some index }

/-- The place that an index has for a sector. -/
def placeIn? (index : Array SectorIndex) (track sector : Nat) : Option Nat :=
  if h : sector < 16 then (index[track]?).bind (·[sector]) else none

theorem indexed_of_index_eq (h : layout.index = some index) : layout.indexed index = layout := by
  obtain ⟨base, tracks, policy, known⟩ := layout
  cases h
  rfl

theorem run_ensureIndex_indexed (storage : Storage) (layout : Nibble) (index : Array SectorIndex)
    (host : Host) : (ensureIndex storage).run (layout.indexed index, host) =
      .ok index (layout.indexed index, host) := rfl

/-- Making the index changes no file, and only the index of the layout. -/
theorem run_ensureIndex_eq_ok (h : (ensureIndex storage).run (layout, host) = .ok index state) :
    state.1 = layout.indexed index ∧ state.2.files = host.files := by
  refine ⟨?_, (files_ensureIndex storage _).of_ok h⟩
  unfold EStateM.run ensureIndex at h
  dsimp only at h
  cases hindex : layout.index with
  | some known =>
    rw [hindex] at h
    cases h
    exact (indexed_of_index_eq hindex).symm
  | none =>
    rw [hindex] at h
    dsimp only at h
    cases hsurvey : surveyFrom layout storage layout.tracks 0 #[] host with
    | ok found after =>
      rw [hsurvey] at h
      cases h
      rfl
    | error e after =>
      rw [hsurvey] at h
      cases h

/-- The index that is made is the one that the survey of all tracks comes to. -/
theorem run_ensureIndex_of_run_surveyFrom (h : layout.index = none)
    (hrun : (surveyFrom layout storage layout.tracks 0 #[]).run host = .ok index after) :
    (ensureIndex storage).run (layout, host) = .ok index (layout.indexed index, after) := by
  simp only [EStateM.run] at hrun ⊢
  simp only [ensureIndex, h, hrun, indexed]

/-! ## Finding sectors -/

/-- A sector is found if it is one of the image and the index has a place for it. -/
theorem run_locate_eq_ok_iff :
    (locate storage track sector).run (layout, host) = .ok place state ↔ track < layout.tracks ∧
      ∃ index, (ensureIndex storage).run (layout, host) = .ok index state ∧
        placeIn? index track sector = some place := by
  rw [locate, EStateM.run_bind]
  change (if h : sector < 16 then _ else _ : Action (Nibble × Host) Nat).run (layout, host) = _ ↔ _
  by_cases hsector : sector < 16
  · by_cases htrack : track < layout.tracks
    · rw [dif_pos hsector, if_pos htrack, EStateM.run_bind]
      cases (ensureIndex storage).run (layout, host) with
      | error e after => simp
      | ok index after =>
        simp only [placeIn?, dif_pos hsector, EStateM.Result.ok.injEq, htrack, true_and]
        -- A survey that succeeds may still have no place for the sector.
        cases hfound : (index[track]?).bind (·[sector]) with
        | none =>
          constructor
          · intro h
            cases h
          · rintro ⟨_, ⟨rfl, rfl⟩, hsome⟩
            rw [hfound] at hsome
            cases hsome
        | some found =>
          constructor
          · intro h
            cases h
            exact ⟨index, ⟨rfl, rfl⟩, hfound⟩
          · rintro ⟨_, ⟨rfl, rfl⟩, hsome⟩
            rw [hfound] at hsome
            cases hsome
            rfl
    · rw [dif_pos hsector, if_neg htrack]
      constructor
      · intro h
        cases h
      · exact fun h => absurd h.1 htrack
  · rw [dif_neg hsector]
    constructor
    · intro h
      cases h
    · rintro ⟨-, index, -, hsome⟩
      rw [placeIn?, dif_neg hsector] at hsome
      cases hsome

/-- The layout and the files after a sector was found. -/
theorem run_locate_eq_ok (h : (locate storage track sector).run (layout, host) = .ok place state) :
    ∃ index, placeIn? index track sector = some place ∧ track < layout.tracks ∧
      (ensureIndex storage).run (layout, host) = .ok index state ∧
      state.1 = layout.indexed index ∧ state.2.files = host.files := by
  obtain ⟨htrack, index, hindex, hplace⟩ := run_locate_eq_ok_iff.mp h
  exact ⟨index, hplace, htrack, hindex, run_ensureIndex_eq_ok hindex⟩

theorem trackOffset_of_located
    (h : (locate storage track sector).run (layout, host) = .ok place located) (track' : Nat) :
    located.1.trackOffset track' = layout.trackOffset track' := by
  obtain ⟨index, -, -, -, hlayout, -⟩ := run_locate_eq_ok h
  rw [hlayout]
  rfl

/-- Whichever sector is found first, the index that is made is the same. -/
theorem located_unique
    (h : (locate storage track sector).run (layout, host) = .ok place located)
    (h' : (locate storage track' sector').run (layout, host) = .ok place' state) :
    state = located := by
  obtain ⟨index, -, -, hindex, -⟩ := run_locate_eq_ok h
  obtain ⟨index', -, -, hindex', -⟩ := run_locate_eq_ok h'
  rw [hindex] at hindex'
  cases hindex'
  rfl

/-- All sectors are found through one index. So once a sector was found the others are where they
were, whatever was written in between. -/
theorem run_locate_of_located
    (h : (locate storage track sector).run (layout, host) = .ok place located) (after : Host) :
    (locate storage track' sector').run (located.1, after) = .ok place' state ↔
      (locate storage track' sector').run (layout, host) = .ok place' located ∧
        state = (located.1, after) := by
  obtain ⟨index, -, -, hindex, hlayout, -⟩ := run_locate_eq_ok h
  rw [hlayout, run_locate_eq_ok_iff, run_locate_eq_ok_iff, run_ensureIndex_indexed]
  constructor
  · rintro ⟨htrack, _, heq, hplace⟩
    cases heq
    exact ⟨⟨htrack, index, hindex, hplace⟩, rfl⟩
  · rintro ⟨⟨htrack, other, hother, hplace⟩, rfl⟩
    rw [hindex] at hother
    cases hother
    exact ⟨htrack, index, rfl, hplace⟩

/-- What comes of looking for a sector depends on the index and the number of tracks only. -/
theorem outcome_locate_eq
    (h : (ensureIndex storage).run (layout, host) = .ok index state) (track sector : Nat) :
    (locate storage track sector).outcome (layout, host) =
      if track < layout.tracks ∧ sector < 16 then
        (placeIn? index track sector).elim (.error (.sectorNotFound track sector)) .ok
      else .error (.sectorOutOfRange track sector) := by
  change (if h : sector < 16 then _ else _ : Action (Nibble × Host) Nat).outcome (layout, host) = _
  by_cases hsector : sector < 16
  · by_cases htrack : track < layout.tracks
    · rw [dif_pos hsector, if_pos htrack, outcome_bind_of_ok h, if_pos ⟨htrack, hsector⟩, placeIn?,
        dif_pos hsector]
      cases (index[track]?).bind (·[sector]) with
      | none => rfl
      | some place => rfl
    · rw [dif_pos hsector, if_neg htrack, if_neg fun h => htrack h.1]
      rfl
  · rw [dif_neg hsector, if_neg fun h => hsector h.2]
    rfl

/-- Once a sector was found, the others are found or missed as they would have been before. -/
theorem outcome_locate_of_located
    (h : (locate storage track sector).run (layout, host) = .ok place located) (after : Host)
    (track' sector' : Nat) :
    (locate storage track' sector').outcome (located.1, after) =
      (locate storage track' sector').outcome (layout, host) := by
  obtain ⟨index, -, -, hindex, hlayout, -⟩ := run_locate_eq_ok h
  rw [hlayout, outcome_locate_eq (run_ensureIndex_indexed ..), outcome_locate_eq hindex]
  rfl

/-! ## Reading -/

/-- The sector whose data field is at a place of a track. -/
def sectorAt (layout : Nibble) (storage : Storage) (host : Host) (track place : Nat) :
    Except DiskError Sector := do
  let bytes ← layout.readTrack storage host track
  let decoded ← decodeSector (Track.field 343 bytes place)
  return decoded.sector

theorem sectorAt_of_readTrack (h : layout.readTrack storage host track = .ok bytes) (place : Nat) :
    layout.sectorAt storage host track place = (do
      let decoded ← decodeSector (Track.field 343 bytes place)
      return decoded.sector) := by
  rw [sectorAt, h]
  exact pure_bind bytes _

theorem sectorAt_eq_ok {decoded : DecodedSector}
    (h : layout.readTrack storage host track = .ok bytes)
    (hdecode : decodeSector (Track.field 343 bytes place) = .ok decoded) :
    layout.sectorAt storage host track place = .ok decoded.sector := by
  rw [sectorAt_of_readTrack h, hdecode]
  rfl

theorem outcome_decodeAt (bytes : ByteArray) (place track sector : Nat) (host : Host) :
    (decodeAt bytes place track sector).outcome host = (do
      let decoded ← decodeSector (Track.field 343 bytes place)
      return decoded.sector) := by
  rw [decodeAt, outcome_ofExcept_bind]
  refine bind_congr fun decoded => ?_
  split
  · rfl
  · rfl

theorem run_ask_readTrack (h : layout.readTrack storage host track = .ok bytes) :
    (ask fun state => state.1.readTrack storage state.2 track :
      Action (Nibble × Host) ByteArray).run (layout, host) = .ok bytes (layout, host) :=
  run_ask_of_ok h

/-- What is on a track depends on the files only. -/
theorem readTrack_congr (h : after.files = host.files) (layout : Nibble) (storage : Storage)
    (track : Nat) : layout.readTrack storage after track = layout.readTrack storage host track := by
  have hcontents : after.contents storage.file = host.contents storage.file := by
    unfold Host.contents Host.find?
    rw [h]
  exact Storage.read_congr (congrArg ByteArray.size hcontents) (congrArg (slice · _ _) hcontents)

/-- A track is read the same before the index is made and after. -/
theorem readTrack_of_located
    (h : (locate storage track sector).run (layout, host) = .ok place located) (track' : Nat) :
    located.1.readTrack storage located.2 track' = layout.readTrack storage host track' := by
  obtain ⟨index, -, -, -, hlayout, hfiles⟩ := run_locate_eq_ok h
  rw [hlayout]
  exact readTrack_congr hfiles layout storage track'

/-- A sector is read if it is found, its track can be read, and its data field can be decoded. -/
theorem run_readSector_eq_ok_iff :
    (readSector storage track sector).run (layout, host) = .ok data state ↔
      ∃ place located bytes after,
        (locate storage track sector).run (layout, host) = .ok place located ∧
        layout.readTrack storage host track = .ok bytes ∧
        (decodeAt bytes place track sector).run located.2 = .ok data after ∧
        state = (located.1, after) := by
  constructor
  · intro h
    obtain ⟨place, located, hlocate, h⟩ := exists_of_run_bind h
    obtain ⟨bytes, reached, hread, hdecode⟩ := exists_of_run_bind h
    obtain ⟨hread, hsame⟩ := run_ask_eq_ok_iff.mp hread
    rw [hsame] at hdecode
    obtain ⟨after, hdecode, hstate⟩ := run_onSecond_eq_ok_iff.mp hdecode
    exact ⟨place, located, bytes, after, hlocate,
      (readTrack_of_located hlocate track).symm.trans hread, hdecode, hstate⟩
  · rintro ⟨place, located, bytes, after, hlocate, hread, hdecode, rfl⟩
    have hread' := run_ask_readTrack ((readTrack_of_located hlocate track).trans hread)
    refine (run_bind_of_ok hlocate _).trans ((run_bind_of_ok hread' _).trans ?_)
    exact run_onSecond_of_ok hdecode

/-- What is read of a sector that was found is what its data field says. -/
theorem outcome_readSector_of_located
    (h : (locate storage track sector).run (layout, host) = .ok place state) :
    (readSector storage track sector).outcome (layout, host) =
      layout.sectorAt storage host track place := by
  rw [readSector, outcome_bind_of_ok h, outcome_ask_bind, sectorAt, ← readTrack_of_located h]
  exact bind_congr fun bytes => outcome_onSecond.trans (outcome_decodeAt ..)

/-- A sector that is not found is not read. -/
theorem outcome_readSector_of_error {e : DiskError}
    (h : (locate storage track sector).outcome (layout, host) = .error e) :
    (readSector storage track sector).outcome (layout, host) = .error e :=
  outcome_bind_of_error h _

/-! ## Tracks -/

theorem readTrack_eq_ok_iff :
    layout.readTrack storage host track = .ok bytes ↔
      layout.trackOffset track + trackSize ≤ storage.size ∧
      layout.trackOffset track + trackSize ≤ (host.contents storage.file).size ∧
      bytes = slice (host.contents storage.file) (layout.trackOffset track) trackSize := by
  rw [readTrack, Storage.read_eq_ok_iff, or_iff_right (by decide : trackSize ≠ 0)]

theorem size_of_readTrack (h : layout.readTrack storage host track = .ok bytes) :
    bytes.size = trackSize := by
  obtain ⟨-, hle, rfl⟩ := readTrack_eq_ok_iff.mp h
  rw [size_slice]
  omega

theorem run_writeTrack_eq [Medium] (storage : Storage) (layout : Nibble) (track : Nat)
    (bytes : ByteArray) (host : Host) :
    (writeTrack storage track bytes).run (layout, host) =
      match (storage.write (layout.trackOffset track) bytes).run host with
      | .ok () after => .ok () (layout, after)
      | .error e after => .error e (layout, after) := rfl

/-- A track is written if the storage can be written, the track lies in it, and the host takes it. -/
theorem run_writeTrack_eq_ok_iff_takes [Medium] :
    (writeTrack storage track bytes).run (layout, host) = .ok () state ↔
      storage.readOnly = false ∧ layout.trackOffset track + bytes.size ≤ storage.size ∧
      storage.Takes host (layout.trackOffset track) bytes ∧
      state = (layout, host.writeAt storage.file (layout.trackOffset track) bytes) := by
  have hwrite {after : Host} : (storage.write (layout.trackOffset track) bytes).run host =
        .ok () after ↔
      storage.readOnly = false ∧ layout.trackOffset track + bytes.size ≤ storage.size ∧
        storage.Takes host (layout.trackOffset track) bytes ∧
        after = host.writeAt storage.file (layout.trackOffset track) bytes :=
    Storage.run_write_eq_ok_iff
  rw [run_writeTrack_eq]
  constructor
  · intro h
    split at h
    · next after hrun =>
      cases h
      obtain ⟨hro, hle, htakes, rfl⟩ := hwrite.mp hrun
      exact ⟨hro, hle, htakes, rfl⟩
    · cases h
  · rintro ⟨hro, hle, htakes, rfl⟩
    rw [hwrite.mpr ⟨hro, hle, htakes, rfl⟩]

theorem isSome_find?_of_readTrack (h : layout.readTrack storage host track = .ok bytes) :
    (host.find? storage.file).isSome := by
  obtain ⟨-, hle, -⟩ := readTrack_eq_ok_iff.mp h
  refine Host.isSome_find?_of_pos (Nat.lt_of_lt_of_le ?_ hle)
  unfold trackSize
  omega

/-- Where the host never fails, it takes a track that could be read. -/
theorem takes_of_readTrack {bytes' : ByteArray}
    (h : layout.readTrack storage host track = .ok bytes) (hsize : bytes'.size = trackSize) :
    storage.Takes host (layout.trackOffset track) bytes' := by
  obtain ⟨-, hle, -⟩ := readTrack_eq_ok_iff.mp h
  unfold Storage.Takes
  split
  · exact .inr (hsize.symm ▸ hle)
  · rfl

theorem trackOffset_add_le_or (h : track' ≠ track) :
    layout.trackOffset track' + trackSize ≤ layout.trackOffset track ∨
      layout.trackOffset track + trackSize ≤ layout.trackOffset track' := by
  unfold trackOffset trackSize
  omega

/-- What a write of a track does to the file. -/
theorem contents_writeAt_of_readTrack (h : layout.readTrack storage host track = .ok bytes)
    (bytes' : ByteArray) :
    (host.writeAt storage.file (layout.trackOffset track) bytes').contents storage.file =
      overwrite (host.contents storage.file) (layout.trackOffset track) bytes' :=
  Host.contents_writeAt_self _ _ (isSome_find?_of_readTrack h)

theorem kept_writeAt_of_readTrack {bytes' : ByteArray} {free : Nat → Prop}
    (h : layout.readTrack storage host track = .ok bytes) (hsize : bytes'.size = trackSize)
    (hfree : ∀ i, i < trackSize → byteAt bytes' i ≠ byteAt bytes i →
      free (layout.trackOffset track + i)) :
    Host.Kept storage.file free host
      (host.writeAt storage.file (layout.trackOffset track) bytes') := by
  obtain ⟨-, hle, rfl⟩ := readTrack_eq_ok_iff.mp h
  have hkept : Host.Kept storage.file (fun _ => True) host
      (host.writeAt storage.file (layout.trackOffset track) bytes') :=
    Host.kept_writeAt (isSome_find?_of_readTrack h) (by rwa [hsize]) fun _ _ _ => trivial
  refine ⟨hkept.access_eq, hkept.contents_eq, hkept.size_eq, fun {k} hk => ?_⟩
  rw [contents_writeAt_of_readTrack h, byteAt_overwrite, hsize]
  split
  · next hin =>
    by_contra hne
    refine hk ?_
    have hchanged := hfree (k - layout.trackOffset track) (by omega) (by
      rwa [byteAt_slice, if_pos (by omega), Nat.add_sub_cancel' hin.1])
    rwa [Nat.add_sub_cancel' hin.1] at hchanged
  · rfl

/-- A track that was written is read back. -/
theorem readTrack_writeAt_self {bytes' : ByteArray}
    (h : layout.readTrack storage host track = .ok bytes) (hsize : bytes'.size = trackSize) :
    layout.readTrack storage (host.writeAt storage.file (layout.trackOffset track) bytes') track =
      .ok bytes' := by
  obtain ⟨hstorage, hle, -⟩ := readTrack_eq_ok_iff.mp h
  have hin : layout.trackOffset track + bytes'.size ≤ (host.contents storage.file).size := by
    rwa [hsize]
  have hself := slice_overwrite_self hin
  rw [hsize] at hself
  refine readTrack_eq_ok_iff.mpr ⟨hstorage, ?_, ?_⟩
  · rw [contents_writeAt_of_readTrack h, size_overwrite]
    split_ifs
    · exact hle
    · omega
  · rw [contents_writeAt_of_readTrack h, hself]

/-- The other tracks are as they were. -/
theorem readTrack_writeAt_of_ne {bytes' : ByteArray}
    (h : layout.readTrack storage host track = .ok bytes) (hsize : bytes'.size = trackSize)
    (hne : track' ≠ track) :
    layout.readTrack storage (host.writeAt storage.file (layout.trackOffset track) bytes') track' =
      layout.readTrack storage host track' := by
  obtain ⟨-, hle, -⟩ := readTrack_eq_ok_iff.mp h
  have hcontents := contents_writeAt_of_readTrack h bytes'
  have hcontents_size : (overwrite (host.contents storage.file) (layout.trackOffset track)
      bytes').size = (host.contents storage.file).size := by
    rw [size_overwrite]
    split_ifs
    · rfl
    · omega
  have hslice : slice (overwrite (host.contents storage.file) (layout.trackOffset track) bytes')
      (layout.trackOffset track') trackSize =
        slice (host.contents storage.file) (layout.trackOffset track') trackSize := by
    refine slice_congr hcontents_size fun i hlo hhi => ?_
    have := layout.trackOffset_add_le_or hne
    rw [byteAt_overwrite, if_neg (by omega)]
  rw [← hcontents] at hcontents_size hslice
  exact Storage.read_congr hcontents_size hslice

end Layout.Nibble

end Diskette
