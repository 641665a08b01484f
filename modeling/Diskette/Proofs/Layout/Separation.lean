import Diskette.Proofs.Gcr.Overlap
import Diskette.Proofs.Layout.Rewriting
import Diskette.Proofs.Layout.Sectors

/-!
# Strictly opened images

An image that is opened strict has no damage to its tracks, or none of its sectors is found. Its
index is that of the tracks as they were when it was opened: no file is changed before the index is
made. So whatever is done with such an image, the place of a sector is the one that its undamaged
track gave it, and replacing a sector changes no other one, unless their data fields overlap.

* `Undamaged`: what an image opened strict can come to.
* `preserves_perform`: every access keeps that.
* `strict_separates`: which sectors of a strictly opened image do not disturb each other.
* `strict_not_separate`: an image opened strict with two sectors that do.
-/

namespace Diskette

theorem Host.files_warnAll (host : Host) (warnings : List Warning) :
    (host.warnAll warnings).files = host.files := by
  induction warnings generalizing host with
  | nil => rfl
  | cons warning rest ih => exact ih (host.warn warning)

namespace Layout.Nibble

open Gcr Gcr.Survey Diskette.Action

variable {layout opened : Nibble} {storage : Storage} {host : Host} {state : Nibble × Host}
  {track track' sector sector' place : Nat} {data : Sector}

/-! ## The index -/

/-- What an index has for a track is what a survey finds on it, and the track is undamaged. -/
def Records (layout : Nibble) (storage : Storage) (host : Host) (track : Nat)
    (sectors : Option SectorIndex) : Prop :=
  ∃ bytes, layout.readTrack storage host track = .ok bytes ∧ Intact track bytes ∧
    sectors = some (ofTrack track bytes).index

/-- One track of a survey. -/
theorem run_surveyFrom_succ {count number : Nat} {index : Array SectorIndex} {bytes : ByteArray}
    {sectors : SectorIndex} {after : Host} (hread : layout.readTrack storage host number = .ok bytes)
    (hreport : (report layout.policy number (ofTrack number bytes)).run host = .ok sectors after) :
    (surveyFrom layout storage (count + 1) number index).run host =
      (surveyFrom layout storage count (number + 1) (index.push sectors)).run after := by
  have hask : (ask fun host => layout.readTrack storage host number :
      Action Host ByteArray).run host = .ok bytes host := run_ask_of_ok hread
  exact (run_bind_of_ok hask _).trans (run_bind_of_ok hreport _)

/-- A strict survey ends with a record of every track. -/
theorem records_of_run_surveyFrom (hpolicy : layout.policy = .strict) (count : Nat) :
    ∀ {number : Nat} {index result : Array SectorIndex} {before after : Host},
      index.size = number → before.files = host.files →
      (surveyFrom layout storage count number index).run before = .ok result after →
      (∀ t, t < number → result[t]? = index[t]?) ∧
        ∀ t, number ≤ t → t < number + count → Records layout storage host t result[t]? := by
  induction count with
  | zero =>
    intro number index result before after _ _ hrun
    cases hrun
    exact ⟨fun _ _ => rfl, fun t hlo hhi => absurd hhi (by omega)⟩
  | succ count ih =>
    intro number index result before after hsize hfiles hrun
    obtain ⟨bytes, _, hread, hrun⟩ := exists_of_run_bind hrun
    obtain ⟨hread, hsame⟩ := run_ask_eq_ok_iff.mp hread
    rw [hsame] at hrun
    obtain ⟨sectors, middle, hreport, hrun⟩ := exists_of_run_bind hrun
    rw [hpolicy] at hreport
    -- Under the strict policy a report that does not fail has found every sector once.
    obtain ⟨hintact, rfl, rfl⟩ := run_report_strict_eq_ok_iff.mp hreport
    obtain ⟨hkept, hrecords⟩ := ih (by rw [Array.size_push, hsize])
      ((Host.files_warnAll ..).trans hfiles) hrun
    refine ⟨fun t ht => ?_, fun t hlo hhi => ?_⟩
    · rw [hkept t (by omega), Array.getElem?_push_lt (by omega)]
      exact (Array.getElem?_eq_getElem (by omega)).symm
    · by_cases heq : t = number
      · refine ⟨bytes, ?_, heq ▸ hintact, ?_⟩
        · rw [heq, ← hread, readTrack_congr hfiles]
        · rw [hkept t (by omega), heq, ← hsize, Array.getElem?_push_size]
      · exact hrecords t (by omega) (by omega)

/-- What an image that was opened strict can come to. Until there is an index no file was changed,
and the index has a record of every track as it was at first. -/
structure Undamaged (storage : Storage) (opened : Nibble) (host : Host) (state : Nibble × Host) :
    Prop where
  layout_eq : { state.1 with index := none } = opened
  files_eq (h : state.1.index = none) : state.2.files = host.files
  records {index : Array SectorIndex} (h : state.1.index = some index) {t : Nat}
    (ht : t < opened.tracks) : Records opened storage host t index[t]?

/-- What an image that was opened strict can come to once its tracks were surveyed. -/
def Mapped (storage : Storage) (opened : Nibble) (host : Host) (state : Nibble × Host) : Prop :=
  Undamaged storage opened host state ∧ state.1.index.isSome

theorem undamaged_ofTracks (storage : Storage) (base tracks : Nat) (policy : SyncPolicy)
    (host : Host) : Undamaged storage (ofTracks base tracks policy) host
      (ofTracks base tracks policy, host) :=
  ⟨rfl, fun _ => rfl, fun h => nomatch h⟩

theorem unindexed_of_index_eq (h : layout.index = none) : { layout with index := none } = layout := by
  obtain ⟨base, tracks, policy, index⟩ := layout
  cases h
  rfl

/-- The survey of the tracks. If it fails the image is as it was opened. -/
theorem preserves_ensureIndex (hpolicy : opened.policy = .strict) :
    Preserves (Undamaged storage opened host) (ensureIndex storage) := by
  rintro ⟨layout, before⟩ h
  have hfiles := files_ensureIndex storage (layout, before)
  unfold Ends EStateM.run ensureIndex at hfiles ⊢
  dsimp only at hfiles ⊢
  cases hindex : layout.index with
  | some index => exact h
  | none =>
    rw [hindex] at hfiles
    have hbefore : before.files = host.files := h.files_eq hindex
    obtain rfl : layout = opened := (unindexed_of_index_eq hindex).symm.trans h.layout_eq
    dsimp only at hfiles ⊢
    cases hsurvey : surveyFrom layout storage layout.tracks 0 #[] before with
    | ok index after =>
      have hempty : (#[] : Array SectorIndex).size = 0 := rfl
      obtain ⟨-, hrecords⟩ := records_of_run_surveyFrom hpolicy _ hempty hbefore hsurvey
      refine ⟨unindexed_of_index_eq hindex, nofun, fun heq t ht => ?_⟩
      cases heq
      exact hrecords t (Nat.zero_le t) (by omega)
    | error e after =>
      rw [hsurvey] at hfiles
      exact ⟨h.layout_eq, fun _ => hfiles.trans hbefore, h.records⟩

/-! ## Accesses -/

/-- What the survey of the tracks keeps, looking for a sector keeps. -/
theorem preserves_locate {Inv : Nibble × Host → Prop} (h : Preserves Inv (ensureIndex storage))
    (track sector : Nat) : Preserves Inv (locate storage track sector) := by
  intro state hstate
  unfold locate
  refine Ends.bind (Q := fun r s => s = state) rfl ?_ fun _ _ hs => hs ▸ hstate
  rintro ⟨layout, _⟩ _ rfl
  dsimp only
  split
  · split
    · refine (h hstate).bind (fun index s hs => ?_) fun _ _ hs => hs
      split
      · exact hs
      · exact hs
    · exact hstate
  · exact hstate

/-- The tracks are surveyed once. -/
theorem preserves_ensureIndex_mapped :
    Preserves (Mapped storage opened host) (ensureIndex storage) := by
  rintro ⟨layout, before⟩ h
  obtain ⟨index, hindex⟩ := Option.isSome_iff_exists.mp h.2
  have hrun := run_ensureIndex_indexed storage layout index before
  rw [indexed_of_index_eq hindex] at hrun
  exact (ends_of_run_eq_ok hrun).mpr h

/-- Once there is an index, what does not change the layout does not matter. -/
theorem preserves_mapped {α : Type} {act : Action (Nibble × Host) α} (h : Retains Prod.fst act) :
    Preserves (Mapped storage opened host) act := by
  intro state ⟨hstate, hindex⟩
  refine (h state).mono fun _ after hlayout => ?_
  have hafter : after.1.index.isSome := by rwa [hlayout]
  refine ⟨⟨by rw [hlayout]; exact hstate.layout_eq, fun hnone => ?_, fun hsome => ?_⟩, hafter⟩
  · rw [hnone] at hafter
    cases hafter
  · rw [hlayout] at hsome
    exact hstate.records hsome

/-- Nothing is done with a sector before the tracks were surveyed. -/
theorem preserves_locate_bind {α : Type} (hpolicy : opened.policy = .strict)
    {f : Nat → Action (Nibble × Host) α}
    (hf : ∀ place, Preserves (Mapped storage opened host) (f place))
    (track sector : Nat) :
    Preserves (Undamaged storage opened host) (locate storage track sector >>= f) := by
  intro state h
  have hlocate := preserves_locate (preserves_ensureIndex hpolicy) track sector h
  unfold Ends at hlocate ⊢
  rw [EStateM.run_bind]
  cases hrun : (locate storage track sector).run state with
  | error e after =>
    rw [hrun] at hlocate
    exact hlocate
  | ok place after =>
    rw [hrun] at hlocate
    obtain ⟨index, -, -, -, hlayout, -⟩ := run_locate_eq_ok hrun
    have hmapped := hf place ⟨hlocate, by rw [hlayout]; rfl⟩
    exact hmapped.mono fun _ _ hafter => hafter.1

/-- Every access to an image that was opened strict. -/
theorem preserves_perform (hpolicy : opened.policy = .strict) (access : SectorAccess) :
    Preserves (Undamaged storage opened host) (access.perform storage) := by
  have hlocate (track sector : Nat) : Preserves (Mapped storage opened host)
      (locate storage track sector) := preserves_locate preserves_ensureIndex_mapped track sector
  cases access with
  | readSector track sector =>
    refine Preserves.bind (preserves_locate_bind hpolicy (fun place => preserves_mapped ?_) _ _)
      fun _ => preserves_pure _
    exact (retains_ask _).bind fun _ => retains_onSecond _
  | writeSector track sector data =>
    refine preserves_locate_bind hpolicy (fun place => preserves_mapped ?_) _ _
    exact (retains_ask _).bind fun _ => layout_writeTrack _ _ _
  | readBlock block =>
    refine Preserves.bind ((preserves_ask _).bind fun _ => preserves_locate_bind hpolicy
      (fun _ => (hlocate _ _).bind fun _ => preserves_mapped ?_) _ _) fun _ => preserves_pure _
    exact (retains_ask _).bind fun _ => (retains_onSecond _).bind fun _ => (retains_onSecond _).bind
      fun _ => retains_pure _
  | writeBlock block data =>
    refine (preserves_ask _).bind fun _ => preserves_locate_bind hpolicy
      (fun _ => (hlocate _ _).bind fun _ => preserves_mapped ?_) _ _
    exact (retains_ask _).bind fun _ => layout_writeTrack _ _ _

/-- What is left of an image after several accesses, whatever came of them. -/
def stateAfterAll (storage : Storage) (accesses : List SectorAccess) (state : Nibble × Host) :
    Nibble × Host :=
  accesses.foldl (fun state access => (access.perform storage).stateAfter state) state

/-- Any number of accesses to an image that was opened strict. -/
theorem Undamaged.stateAfterAll (hpolicy : opened.policy = .strict) (accesses : List SectorAccess)
    (h : Undamaged storage opened host state) :
    Undamaged storage opened host (stateAfterAll storage accesses state) := by
  induction accesses generalizing state with
  | nil => exact h
  | cons access rest ih => exact ih (ends_iff.mp (preserves_perform hpolicy access h))

/-! ## Sectors -/

/-- A sector is found where it is on its track as that was when the image was opened. -/
theorem Undamaged.of_run_locate (hpolicy : opened.policy = .strict)
    (h : Undamaged storage opened host state) {located : Nibble × Host}
    (hlocate : (locate storage track sector).run state = .ok place located) :
    ∃ bytes, opened.readTrack storage host track = .ok bytes ∧ Intact track bytes ∧
      ∃ hs : sector < 16, (ofTrack track bytes).index.get ⟨sector, hs⟩ = some place := by
  obtain ⟨index, hplace, htrack, hindex, hlayout, -⟩ := run_locate_eq_ok hlocate
  have htracks : state.1.tracks = opened.tracks := by rw [← h.layout_eq]
  have hafter := (preserves_ensureIndex hpolicy h).of_ok hindex
  have hsome : located.1.index = some index := by
    rw [hlayout]
    rfl
  obtain ⟨bytes, hread, hintact, hsectors⟩ := hafter.records hsome (htracks ▸ htrack)
  unfold placeIn? at hplace
  split at hplace
  · next hs =>
    rw [hsectors] at hplace
    exact ⟨bytes, hread, hintact, hs, hplace⟩
  · cases hplace

/-- On a track as it was when the image was opened, the data fields of two sectors overlap. One of
the sectors starts in the other. -/
def Entangled (storage : Storage) (opened : Nibble) (host : Host) (track sector sector' : Nat) :
    Prop :=
  ∃ bytes, ∃ hs : sector < 16, ∃ hs' : sector' < 16,
    opened.readTrack storage host track = .ok bytes ∧
    Overlap bytes (ofTrack track bytes).index ⟨sector, hs⟩ ⟨sector', hs'⟩ ∧
    Nested track bytes ⟨sector, hs⟩ ⟨sector', hs'⟩

theorem Undamaged.apart_or (hpolicy : opened.policy = .strict)
    (h : Undamaged storage opened host state) :
    Apart storage state track sector track' sector' ∨
      track' = track ∧ Entangled storage opened host track sector sector' := by
  by_cases hapart : Apart storage state track sector track' sector'
  · exact .inl hapart
  · unfold Apart at hapart
    push Not at hapart
    obtain ⟨place, place', _, _, hlocate, hlocate', rfl, hmeet⟩ := hapart
    obtain ⟨bytes, hread, hintact, hs, hget⟩ := h.of_run_locate hpolicy hlocate
    obtain ⟨bytes', hread', -, hs', hget'⟩ := h.of_run_locate hpolicy hlocate'
    obtain rfl := Except.ok.inj (hread.symm.trans hread')
    have hoverlap : Overlap bytes (ofTrack _ bytes).index ⟨sector, hs⟩ ⟨sector', hs'⟩ :=
      ⟨place, place', hget, hget', by rwa [size_of_readTrack hread]⟩
    exact .inr ⟨rfl, bytes, hs, hs', hread, hoverlap, hintact.separate.nested hoverlap⟩

/-- Which sectors do not disturb each other. Where a strict report succeeds there is a data field
for every sector, and only those of nested sectors overlap. Whatever was done with an image that was
opened strict, replacing a sector does not change what is read of the others, unless their data
fields overlap. -/
theorem strict_separates :
    (∀ number bytes host after index,
      (report .strict number (ofTrack number bytes)).run host = .ok index after →
      Separate number bytes index) ∧
    ∀ storage base tracks host accesses track sector data state,
      (writeSector storage track sector data).run
        (stateAfterAll storage accesses (ofTracks base tracks .strict, host)) = .ok () state →
      ∀ track' sector',
        (readSector storage track' sector').outcome state =
          (readSector storage track' sector').outcome
            (stateAfterAll storage accesses (ofTracks base tracks .strict, host)) ∨
        track' = track ∧
          Entangled storage (ofTracks base tracks .strict) host track sector sector' := by
  refine ⟨fun _ _ _ _ _ => separate_of_run_report_strict, ?_⟩
  intro storage base tracks host accesses track sector data state hwrite track' sector'
  have hopened := (undamaged_ofTracks storage base tracks .strict host).stateAfterAll rfl accesses
  exact (hopened.apart_or rfl).imp_left (outcome_readSector_of_run_writeSector hwrite)

/-- On a fresh image of one track the first sector is replaced after another one was read. The
second sector stays empty. -/
theorem strict_separates_fresh :
    let host : Host := ⟨[⟨"disk.nib", zeros 6656, .readWrite⟩], #[]⟩
    let storage := Storage.ofSize "disk.nib" 6656 .mapped false
    Separate 0 (Track.formatted 254 0) Track.formattedIndex ∧
    ∃ laid state,
      (create storage 8 254 .strict).run host = .ok (ofTracks 0 1 .strict) laid ∧
      (writeSector storage 0 0 (.tabulate 256 .ofNat)).run
        (stateAfterAll storage [.readSector 0 3] (ofTracks 0 1 .strict, laid)) = .ok () state ∧
      (readSector storage 0 1).outcome state = .ok (Bytes.zero 256) := by
  intro host storage
  have hfind : host.find? "disk.nib" = some ⟨"disk.nib", zeros 6656, .readWrite⟩ := rfl
  have hcontents : (host.contents storage.file).size = storage.size := by
    change (host.contents "disk.nib").size = 6656
    simp only [Host.contents, hfind, size_zeros]
  have hs : storage.Backed host := ⟨rfl, Nat.le_of_eq hcontents.symm⟩
  have hw : storage.readOnly = false := rfl
  have hfresh := Track.formatted_formatted 254 0
  have hreport : (report .strict 0 (ofTrack 0 (Track.formatted 254 0))).run host =
      .ok Track.formattedIndex host := by
    have hsurvey : ofTrack 0 (Track.formatted 254 0) = ⟨Track.formattedIndex, #[]⟩ :=
      hfresh.ofTrack_eq
    rw [hsurvey]
    rfl
  refine ⟨strict_separates.1 0 _ host host _ hreport, ?_⟩
  obtain ⟨laid, hcreate, hkept, hlaid⟩ :=
    formatted_create hs hw (show tracksFor 8 = .ok 1 from rfl) (Nat.le_refl _) 254 .strict
  have hs' := hs.kept hkept
  have hread := hlaid.run_readSector hs' (show 0 < 1 by decide) (show 3 < 16 by decide)
  have hafter : stateAfterAll storage [.readSector 0 3] (ofTracks 0 1 .strict, laid) =
      ((ofTracks 0 1 .strict).surveyed, laid) := by
    have hperform : (SectorAccess.perform storage (.readSector 0 3)).run
        (ofTracks 0 1 .strict, laid) = .ok () _ := run_bind_of_ok hread _
    unfold stateAfterAll stateAfter
    rw [List.foldl_cons, hperform]
    rfl
  obtain ⟨after, hwrite, -, -⟩ := hlaid.surveyed.run_writeSector hs' hw (show 0 < 1 by decide)
    (show 0 < 16 by decide) (.tabulate 256 .ofNat)
  rw [← hafter] at hwrite
  refine ⟨laid, _, hcreate, hwrite, ?_⟩
  -- Were the fields of the two sectors not apart, a formatted track would overlap.
  rcases strict_separates.2 storage 0 1 laid [.readSector 0 3] 0 0 _ _ hwrite 0 1 with h | ⟨-, h⟩
  · rw [h, hafter]
    exact outcome_of_run_eq_ok
      (hlaid.surveyed.run_readSector hs' (show 0 < 1 by decide) (show 1 < 16 by decide))
  · obtain ⟨bytes, _, _, hbytes, hoverlap, -⟩ := h
    obtain rfl := Except.ok.inj ((hlaid.readTrack_eq hs' Nat.one_pos).symm.trans hbytes)
    exact absurd hoverlap (not_overlap_of_formatted (hlaid.track Nat.one_pos) (by simp))

theorem placeIn?_singleton (sectors : SectorIndex) (sector : Fin 16) :
    placeIn? #[sectors] 0 sector = sectors.get sector := by
  rw [placeIn?, dif_pos sector.isLt]
  rfl

/-- Where the sectors of an image of one track are found. -/
theorem exists_run_locate_of_intact {bytes : ByteArray}
    (hread : (ofTracks 0 1 .strict).readTrack storage host 0 = .ok bytes) (h : Intact 0 bytes) :
    ∃ located, ∀ (sector : Fin 16) place, (ofTrack 0 bytes).index.get sector = some place →
      (locate storage 0 sector).run (ofTracks 0 1 .strict, host) = .ok place located := by
  have hreport : (report .strict 0 (ofTrack 0 bytes)).run host = .ok _ _ :=
    run_report_strict_eq_ok_iff.mpr ⟨h, rfl, rfl⟩
  have hsurvey : (surveyFrom (ofTracks 0 1 .strict) storage 1 0 #[]).run host =
      .ok #[(ofTrack 0 bytes).index] _ := run_surveyFrom_succ hread hreport
  have hensure := run_ensureIndex_of_run_surveyFrom rfl hsurvey
  refine ⟨_, fun sector place hplace => run_locate_eq_ok_iff.mpr ⟨Nat.one_pos, _, hensure, ?_⟩⟩
  rw [placeIn?_singleton, hplace]

/-- A file that is one track. -/
theorem readTrack_whole {policy : SyncPolicy} (hstorage : storage.size = trackSize)
    (hsize : (host.contents storage.file).size = trackSize) :
    (ofTracks 0 1 policy).readTrack storage host 0 = .ok (host.contents storage.file) := by
  have hoffset : (ofTracks 0 1 policy).trackOffset 0 = 0 := by
    rw [trackOffset, Nat.zero_mul]
    rfl
  rw [readTrack_eq_ok_iff, hoffset, hstorage, hsize, Nat.zero_add]
  refine ⟨Nat.le_refl _, Nat.le_refl _, ?_⟩
  rw [slice, Nat.zero_add, ← hsize, ByteArray.extract_zero_size]

/-- On an image of one track, two sectors of which have one data field, one of them is replaced.
Though the image was opened strict, the other one is read as what was written. -/
theorem strict_not_separate :
    let host : Host := ⟨[⟨"disk.nib", borrowed, .readWrite⟩], #[]⟩
    let storage := Storage.ofSize "disk.nib" 6656 .mapped false
    (∃ index after, (report .strict 0 (ofTrack 0 borrowed)).run host = .ok index after ∧
      Overlap borrowed index 0 1) ∧
    ∃ state,
      (writeSector storage 0 0 (.tabulate 256 .ofNat)).run (ofTracks 0 1 .strict, host) =
        .ok () state ∧
      (readSector storage 0 1).outcome (ofTracks 0 1 .strict, host) = .ok (Bytes.zero 256) ∧
      (readSector storage 0 1).outcome state = .ok (.tabulate 256 .ofNat) ∧
      (Bytes.tabulate 256 .ofNat : Sector) ≠ Bytes.zero 256 := by
  intro host storage
  obtain ⟨hintact, hindex⟩ := intact_borrowed
  have hread : (ofTracks 0 1 .strict).readTrack storage host 0 = .ok borrowed :=
    readTrack_whole rfl size_borrowed
  obtain ⟨located, hlocate⟩ := exists_run_locate_of_intact hread hintact
  have hfirst := hlocate 0 63 (hindex 0)
  have hsecond := hlocate 1 63 (hindex 1)
  have hwrite : (writeSector storage 0 0 (.tabulate 256 .ofNat)).run (ofTracks 0 1 .strict, host) =
      .ok () _ := run_writeSector_eq_ok_iff.mpr ⟨_, _, _, hfirst, hread, rfl, rfl⟩
  have hoverlap : Overlap borrowed (ofTrack 0 borrowed).index 0 1 :=
    overlap_of_get_eq (hindex 0) (hindex 1)
  refine ⟨⟨_, _, run_report_strict_eq_ok_iff.mpr ⟨hintact, rfl, rfl⟩, hoverlap⟩, _, hwrite, ?_,
    outcome_readSector_of_same_place hwrite hfirst hsecond, ?_⟩
  · have hempty := sectorAt_eq_ok hread decode_borrowed
    exact (outcome_readSector_of_located hsecond).trans hempty
  · intro h
    have hbyte : (Bytes.tabulate 256 .ofNat : Sector).byte 1 = (Bytes.zero 256).byte 1 := by rw [h]
    rw [Bytes.byte_tabulate, Bytes.byte_zero] at hbyte
    exact absurd hbyte (by decide)

end Layout.Nibble

end Diskette
