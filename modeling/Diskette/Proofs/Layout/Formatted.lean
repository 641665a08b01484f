import Diskette.Layout.Nibble
import Diskette.Proofs.Ends
import Diskette.Proofs.Files
import Diskette.Proofs.Gcr.FormattedTrack

/-!
# Formatted nibble images

In an image whose tracks are formatted the survey finds every sector where formatting put it. Blocks
are then read and replaced as in any other layout, and the tracks stay formatted.

* `run_locate`: where a sector is.
* `run_readBlock`, `run_writeBlock`: blocks.
* `formatted_create`, `run_create_of_writable`: a created image is formatted.
-/

namespace Diskette.Layout.Nibble

open Gcr Diskette.Action

variable {layout : Nibble} {storage : Storage} {host : Host} {volume : UInt8}
  {sectors : Nat → Nat → Sector} {size : Nat} {data : ByteArray} {c : Nat → Block}

/-- The index of `tracks` formatted tracks. -/
def formattedIndex (tracks : Nat) : Array SectorIndex := .replicate tracks Track.formattedIndex

/-- The tracks of a storage are formatted and hold these sectors. -/
structure Formatted (layout : Nibble) (size : Nat) (data : ByteArray) (volume : UInt8)
    (sectors : Nat → Nat → Sector) : Prop where
  fits : layout.base + layout.tracks * trackSize ≤ size
  tracks_le : layout.tracks ≤ 255
  track {t : Nat} (ht : t < layout.tracks) :
    Track.Formatted volume (UInt8.ofNat t) (slice data (layout.trackOffset t) trackSize) (sectors t)
  index_eq (index : Array SectorIndex) (h : layout.index = some index) :
    index = formattedIndex layout.tracks

/-- The two sectors of a block, as a block. -/
def blockOf (sectors : Nat → Nat → Sector) (block : Nat) : Block :=
  (sectors (block / 8) (blockSectors block).1).append (sectors (block / 8) (blockSectors block).2)

/-- The tracks of a storage are formatted, and its blocks are those of `c`. -/
def Holds (layout : Nibble) (size : Nat) (data : ByteArray) (c : Nat → Block) : Prop :=
  ∃ volume sectors, layout.Formatted size data volume sectors ∧
    ∀ block, block < layout.blocks → c block = blockOf sectors block

/-- The layout once its tracks have been surveyed. -/
def surveyed (layout : Nibble) : Nibble :=
  { layout with index := some (formattedIndex layout.tracks) }

theorem Formatted.surveyed (h : layout.Formatted size data volume sectors) :
    layout.surveyed.Formatted size data volume sectors :=
  ⟨h.fits, h.tracks_le, h.track, fun _ hi => (Option.some.inj hi).symm⟩

/-! ## Finding sectors -/

theorem Formatted.readTrack_eq (h : layout.Formatted storage.size data volume sectors)
    (hs : storage.Backed host) {t : Nat} (ht : t < layout.tracks) :
    layout.readTrack storage host t =
      .ok (slice (host.contents storage.file) (layout.trackOffset t) trackSize) := by
  refine hs.read_eq (Nat.le_trans ?_ h.fits)
  have : (t + 1) * trackSize ≤ layout.tracks * trackSize := Nat.mul_le_mul_right _ ht
  rw [Nat.succ_mul] at this
  rw [trackOffset, Nat.add_assoc]
  exact Nat.add_le_add_left this _

theorem Formatted.run_surveyFrom
    (h : layout.Formatted storage.size (host.contents storage.file) volume sectors)
    (hs : storage.Backed host) (count : Nat) :
    ∀ (t : Nat) (index : Array SectorIndex), t + count ≤ layout.tracks →
      (surveyFrom layout storage count t index).run host =
        .ok (index ++ formattedIndex count) host := by
  induction count with
  | zero =>
    intro t index _
    simp [surveyFrom, formattedIndex]
  | succ count ih =>
    intro t index hle
    have htracks := h.tracks_le
    have hnumber : (UInt8.ofNat t).toNat = t := by
      rw [UInt8.toNat_ofNat']
      omega
    have hsurvey := (h.track (t := t) (by omega)).ofTrack_eq
    rw [hnumber] at hsurvey
    rw [surveyFrom, EStateM.run_bind, Action.run_ask, h.readTrack_eq hs (by omega)]
    simp only [hsurvey, Survey.report, EStateM.run_bind]
    change (surveyFrom layout storage count (t + 1) (index.push Track.formattedIndex)).run host = _
    rw [ih (t + 1) _ (by omega), formattedIndex, formattedIndex, Array.replicate_succ']
    simp

theorem Formatted.run_ensureIndex
    (h : layout.Formatted storage.size (host.contents storage.file) volume sectors)
    (hs : storage.Backed host) :
    (ensureIndex storage).run (layout, host) =
      .ok (formattedIndex layout.tracks) (layout.surveyed, host) := by
  obtain ⟨base, tracks, policy, index⟩ := layout
  cases index with
  | some index =>
    have hindex : index = formattedIndex tracks := h.index_eq index rfl
    subst hindex
    rfl
  | none =>
    have hrun := h.run_surveyFrom hs tracks 0 #[] (Nat.le_of_eq (Nat.zero_add _))
    simp only [EStateM.run] at hrun
    simp only [EStateM.run, ensureIndex, hrun, Array.empty_append]
    rfl

theorem Formatted.run_locate
    (h : layout.Formatted storage.size (host.contents storage.file) volume sectors)
    (hs : storage.Backed host) {t sector : Nat} (ht : t < layout.tracks) (hsector : sector < 16) :
    (locate storage t sector).run (layout, host) =
      .ok (Track.dataPlace sector) (layout.surveyed, host) := by
  have hfound : ((formattedIndex layout.tracks)[t]?).bind (·[sector]) =
      some (Track.dataPlace sector) := by
    simp [formattedIndex, ht, Track.formattedIndex]
  rw [locate, EStateM.run_bind]
  change (if hlt : sector < 16 then _ else _ : Action (Nibble × Host) Nat).run (layout, host) = _
  rw [dif_pos hsector]
  rw [if_pos ht, run_bind_of_ok (h.run_ensureIndex hs)]
  simp only [hfound]
  rfl

/-! ## Blocks -/

theorem run_decodeAt {track : ByteArray} {number : UInt8} {inner : Nat → Sector}
    (h : Track.Formatted volume number track inner) {sector : Nat} (hsector : sector < 16)
    (t : Nat) :
    (decodeAt track (Track.dataPlace sector) t sector).run host = .ok (inner sector) host := by
  unfold decodeAt
  rw [h.decode_field hsector]
  rfl

/-- A sector is read, and nothing is logged. -/
theorem Formatted.run_readSector
    (h : layout.Formatted storage.size (host.contents storage.file) volume sectors)
    (hs : storage.Backed host) {t sector : Nat} (ht : t < layout.tracks) (hsector : sector < 16) :
    (readSector storage t sector).run (layout, host) =
      .ok (sectors t sector) (layout.surveyed, host) := by
  have hread : (ask fun state => state.1.readTrack storage state.2 t :
      Action (Nibble × Host) ByteArray).run (layout.surveyed, host) = .ok _ (layout.surveyed, host) :=
    run_ask_of_ok (h.surveyed.readTrack_eq hs ht)
  refine (run_bind_of_ok (h.run_locate hs ht hsector) _).trans ?_
  refine (run_bind_of_ok hread _).trans ?_
  exact run_onSecond_of_ok (run_decodeAt (h.track ht) hsector t)

theorem track_lt {block : Nat} (hb : block < layout.blocks) : block / 8 < layout.tracks := by
  unfold blocks at hb
  omega

/-- A block is read from its two sectors. -/
theorem Formatted.run_readBlock
    (h : layout.Formatted storage.size (host.contents storage.file) volume sectors)
    (hs : storage.Backed host) {block : Nat} (hb : block < layout.blocks) :
    (readBlock storage block).run (layout, host) =
      .ok (blockOf sectors block) (layout.surveyed, host) := by
  have ht := track_lt hb
  obtain ⟨hfirst, hsecond⟩ := blockSectors_lt block
  have hcheck : (ask fun state => checkBlock block state.1.blocks :
      Action (Nibble × Host) Unit).run (layout, host) = .ok () (layout, host) :=
    run_ask_of_ok (checkBlock_eq_ok_iff.mpr hb)
  have hread : (ask fun state => state.1.readTrack storage state.2 (block / 8) :
      Action (Nibble × Host) ByteArray).run (layout.surveyed, host) = .ok _ (layout.surveyed, host) :=
    run_ask_of_ok (h.surveyed.readTrack_eq hs ht)
  refine (run_bind_of_ok hcheck _).trans ?_
  refine (run_bind_of_ok (h.run_locate hs ht hfirst) _).trans ?_
  refine (run_bind_of_ok (h.surveyed.run_locate hs ht hsecond) _).trans ?_
  refine (run_bind_of_ok hread _).trans ?_
  refine (run_bind_of_ok (run_onSecond_of_ok (run_decodeAt (h.track ht) hfirst _)) _).trans ?_
  refine (run_bind_of_ok (run_onSecond_of_ok (run_decodeAt (h.track ht) hsecond _)) _).trans ?_
  rfl

theorem Holds.run_readBlock (h : layout.Holds storage.size (host.contents storage.file) c)
    (hs : storage.Backed host) {block : Nat} (hb : block < layout.blocks) :
    (readBlock storage block).run (layout, host) = .ok (c block) (layout.surveyed, host) := by
  obtain ⟨volume, sectors, hf, hc⟩ := h
  rw [hc block hb]
  exact hf.run_readBlock hs hb

/-! ## Replacing blocks -/

private theorem blockSectors_ne (block : Nat) : (blockSectors block).1 ≠ (blockSectors block).2 :=
  fun h => firstHalf_ne_secondHalf block block (sectorOrder_injective h)

/-- Blocks of one track have no sector in common. -/
private theorem blockSectors_disjoint {a b : Nat} (ht : a / 8 = b / 8) (hne : a ≠ b) :
    ((blockSectors a).1 ≠ (blockSectors b).1 ∧ (blockSectors a).1 ≠ (blockSectors b).2) ∧
      (blockSectors a).2 ≠ (blockSectors b).1 ∧ (blockSectors a).2 ≠ (blockSectors b).2 := by
  refine ⟨⟨fun h => hne (firstHalf_injective ht (sectorOrder_injective h)),
    fun h => firstHalf_ne_secondHalf a b (sectorOrder_injective h)⟩,
    fun h => firstHalf_ne_secondHalf b a (sectorOrder_injective h.symm), fun h => hne ?_⟩
  have := sectorOrder_injective h
  simp only [secondHalf, Fin.mk.injEq] at this
  omega

private theorem append_halves (data : Block) :
    ((Bytes.ofSlice 256 data.data 0).append (Bytes.ofSlice 256 data.data 256) : Block) = data := by
  refine Bytes.ext_byte fun i hi => ?_
  rw [Bytes.byte_append]
  split
  · next hlt => rw [Bytes.byte_ofSlice, if_pos hlt, Nat.zero_add]; rfl
  · next hlt =>
    rw [Bytes.byte_ofSlice, if_pos (by omega), show 256 + (i - 256) = i by omega]
    rfl

/-- The sectors of all tracks after one was replaced. -/
def replaceSector (sectors : Nat → Nat → Sector) (track sector : Nat) (data : Sector) :
    Nat → Nat → Sector :=
  Function.update sectors track (Function.update (sectors track) sector data)

/-- The sectors of all tracks after a block was replaced. -/
def replaceBlock (sectors : Nat → Nat → Sector) (block : Nat) (data : Block) : Nat → Nat → Sector :=
  Function.update sectors (block / 8) <|
    Function.update
      (Function.update (sectors (block / 8)) (blockSectors block).1 (Bytes.ofSlice 256 data.data 0))
      (blockSectors block).2 (Bytes.ofSlice 256 data.data 256)

theorem blockOf_replaceBlock_self (sectors : Nat → Nat → Sector) (block : Nat) (data : Block) :
    blockOf (replaceBlock sectors block data) block = data := by
  rw [blockOf, replaceBlock, Function.update_self, Function.update_self,
    Function.update_of_ne (blockSectors_ne block), Function.update_self, append_halves]

theorem blockOf_replaceBlock_of_ne (sectors : Nat → Nat → Sector) {block other : Nat} (data : Block)
    (h : other ≠ block) :
    blockOf (replaceBlock sectors block data) other = blockOf sectors other := by
  unfold blockOf replaceBlock
  by_cases ht : other / 8 = block / 8
  · obtain ⟨⟨h1, h2⟩, h3, h4⟩ := blockSectors_disjoint ht h
    rw [ht, Function.update_self, Function.update_of_ne h2, Function.update_of_ne h1,
      Function.update_of_ne h4, Function.update_of_ne h3]
  · rw [Function.update_of_ne ht]

/-- Writing a formatted track over another keeps the tracks formatted. -/
theorem Formatted.writeTrack {t : Nat} {bytes : ByteArray} {inner : Nat → Sector}
    (h : layout.Formatted storage.size (host.contents storage.file) volume sectors)
    (hs : storage.Backed host) (ht : t < layout.tracks)
    (hbytes : Track.Formatted volume (UInt8.ofNat t) bytes inner) :
    layout.Formatted storage.size
      ((host.writeAt storage.file (layout.trackOffset t) bytes).contents storage.file) volume
      (Function.update sectors t inner) where
  fits := h.fits
  tracks_le := h.tracks_le
  index_eq := h.index_eq
  track := by
    intro t' ht'
    have hsize := hs.size_le
    have hfits := h.fits
    have hbytes_size : bytes.size = 6656 := hbytes.size_eq
    have hle : layout.trackOffset t + bytes.size ≤ (host.contents storage.file).size := by
      unfold trackOffset trackSize at *
      omega
    rw [hs.contents_writeAt]
    -- Tracks do not overlap, so the others are where they were.
    by_cases he : t' = t
    · subst he
      have hself := slice_overwrite_self hle
      rw [hbytes.size_eq] at hself
      rwa [Function.update_self, hself]
    · rw [Function.update_of_ne he, slice_congr (b := host.contents storage.file)]
      · exact h.track ht'
      · rw [size_overwrite, if_neg (by omega)]
        omega
      · intro i hlo hhi
        rw [byteAt_overwrite, if_neg]
        unfold trackOffset trackSize at *
        omega

theorem run_writeTrack {after : Host} {t : Nat} {bytes : ByteArray}
    (h : (storage.write (layout.trackOffset t) bytes).run host = .ok () after) :
    (Nibble.writeTrack storage t bytes).run (layout, host) = .ok () (layout, after) := by
  unfold EStateM.run at h ⊢
  unfold Nibble.writeTrack
  simp only [h]

/-- The places of the data in a file. -/
def InData (layout : Nibble) (k : Nat) : Prop :=
  layout.base ≤ k ∧ k < layout.base + layout.tracks * trackSize

/-- A formatted track is written over another. -/
theorem Formatted.run_writeTrack_ends {t : Nat} {bytes : ByteArray} {inner : Nat → Sector}
    (h : layout.Formatted storage.size (host.contents storage.file) volume sectors)
    (hs : storage.Backed host) (hw : storage.readOnly = false) (ht : t < layout.tracks)
    (hbytes : Track.Formatted volume (UInt8.ofNat t) bytes inner) :
    ∃ after, (Nibble.writeTrack storage t bytes).run (layout, host) = .ok () (layout, after) ∧
      Host.Kept storage.file layout.InData host after ∧
      layout.Formatted storage.size (after.contents storage.file) volume
        (Function.update sectors t inner) := by
  have hsize : bytes.size = 6656 := hbytes.size_eq
  have hle : layout.trackOffset t + bytes.size ≤ layout.base + layout.tracks * trackSize := by
    unfold trackOffset trackSize
    omega
  have hfits := Nat.le_trans hle h.fits
  refine ⟨_, run_writeTrack (hs.run_write hw hfits), hs.kept_writeAt hfits ?_,
    h.writeTrack hs ht hbytes⟩
  intro k hlo hhi
  refine ⟨?_, by omega⟩
  unfold trackOffset at hlo
  omega

/-- A sector is replaced in its data field. -/
theorem Formatted.run_writeSector
    (h : layout.Formatted storage.size (host.contents storage.file) volume sectors)
    (hs : storage.Backed host) (hw : storage.readOnly = false) {t sector : Nat}
    (ht : t < layout.tracks) (hsector : sector < 16) (data : Sector) :
    ∃ after, (writeSector storage t sector data).run (layout, host) =
        .ok () (layout.surveyed, after) ∧
      Host.Kept storage.file layout.InData host after ∧
      layout.surveyed.Formatted storage.size (after.contents storage.file) volume
        (replaceSector sectors t sector data) := by
  have hread : (ask fun state => state.1.readTrack storage state.2 t :
      Action (Nibble × Host) ByteArray).run (layout.surveyed, host) = .ok _ (layout.surveyed, host) :=
    run_ask_of_ok (h.surveyed.readTrack_eq hs ht)
  obtain ⟨after, hrun, hkept, hafter⟩ :=
    h.surveyed.run_writeTrack_ends hs hw ht ((h.track ht).writeField hsector data)
  refine ⟨after, ?_, hkept, hafter⟩
  refine (run_bind_of_ok (h.run_locate hs ht hsector) _).trans ?_
  exact (run_bind_of_ok hread _).trans hrun

/-- Both sectors of a block are replaced. -/
theorem Formatted.run_writeBlock
    (h : layout.Formatted storage.size (host.contents storage.file) volume sectors)
    (hs : storage.Backed host) (hw : storage.readOnly = false) {block : Nat}
    (hb : block < layout.blocks) (data : Block) :
    ∃ after, (writeBlock storage block data).run (layout, host) = .ok () (layout.surveyed, after) ∧
      Host.Kept storage.file layout.InData host after ∧
      layout.surveyed.Formatted storage.size (after.contents storage.file) volume
        (replaceBlock sectors block data) := by
  have ht := track_lt hb
  obtain ⟨hfirst, hsecond⟩ := blockSectors_lt block
  have hbytes := ((h.track ht).writeField hfirst (Bytes.ofSlice 256 data.data 0)).writeField hsecond
    (Bytes.ofSlice 256 data.data 256)
  have hcheck : (ask fun state => checkBlock block state.1.blocks :
      Action (Nibble × Host) Unit).run (layout, host) = .ok () (layout, host) :=
    run_ask_of_ok (checkBlock_eq_ok_iff.mpr hb)
  have hread : (ask fun state => state.1.readTrack storage state.2 (block / 8) :
      Action (Nibble × Host) ByteArray).run (layout.surveyed, host) =
        .ok _ (layout.surveyed, host) :=
    run_ask_of_ok (h.surveyed.readTrack_eq hs ht)
  obtain ⟨after, hrun, hkept, hafter⟩ := h.surveyed.run_writeTrack_ends hs hw ht hbytes
  refine ⟨after, ?_, hkept, hafter⟩
  refine (run_bind_of_ok hcheck _).trans ?_
  refine (run_bind_of_ok (h.run_locate hs ht hfirst) _).trans ?_
  refine (run_bind_of_ok (h.surveyed.run_locate hs ht hsecond) _).trans ?_
  exact (run_bind_of_ok hread _).trans hrun

theorem Holds.run_writeBlock (h : layout.Holds storage.size (host.contents storage.file) c)
    (hs : storage.Backed host) (hw : storage.readOnly = false) {block : Nat}
    (hb : block < layout.blocks) (data : Block) :
    ∃ after, (writeBlock storage block data).run (layout, host) = .ok () (layout.surveyed, after) ∧
      Host.Kept storage.file layout.InData host after ∧
      layout.surveyed.Holds storage.size (after.contents storage.file)
        (Function.update c block data) := by
  obtain ⟨volume, sectors, hf, hc⟩ := h
  obtain ⟨after, hrun, hkept, hafter⟩ := hf.run_writeBlock hs hw hb data
  refine ⟨after, hrun, hkept, volume, _, hafter, fun other hother => ?_⟩
  by_cases he : other = block
  · rw [he, Function.update_self, blockOf_replaceBlock_self]
  · rw [Function.update_of_ne he, blockOf_replaceBlock_of_ne sectors data he]
    exact hc other hother

/-! ## Creating -/

/-- Tracks are written one after the other, and stand in the file if there is one. -/
theorem run_formatFrom (hw : storage.readOnly = false) (volume : UInt8) (count : Nat) :
    ∀ {number : Nat} (host : Host), (number + count) * 6656 ≤ storage.size →
      storage.Reaches host storage.size →
      ∃ after, (formatFrom storage volume count number).run host = .ok () after ∧
        (storage.Backed host → Host.Kept storage.file (fun k => number * 6656 ≤ k) host after ∧
          ∀ t, number ≤ t → t < number + count →
            slice (after.contents storage.file) (t * 6656) 6656 =
              Track.formatted volume (UInt8.ofNat t)) := by
  induction count with
  | zero =>
    intro number host _ _
    exact ⟨host, rfl, fun _ => ⟨.refl, fun t hle hlt => by omega⟩⟩
  | succ count ih =>
    intro number host hle hreach
    have hrest : (number + 1 + count) * 6656 ≤ storage.size := by
      rwa [Nat.add_right_comm, Nat.add_assoc]
    have hsize : (Track.formatted volume (UInt8.ofNat number)).size = 6656 :=
      (Track.formatted_formatted volume _).size_eq
    have hfirst : number * 6656 + (Track.formatted volume (UInt8.ofNat number)).size ≤
        storage.size := by
      rw [hsize, ← Nat.succ_mul]
      exact Nat.le_trans (Nat.mul_le_mul_right _ (Nat.le_add_right _ _)) hrest
    obtain ⟨after, hrun, hwritten⟩ := ih (host.writeAt storage.file (number * 6656)
      (Track.formatted volume (UInt8.ofNat number))) hrest (hreach.writeAt _ _)
    have hwrite := Storage.run_write_of_le hw hfirst (hreach.mono hfirst)
    refine ⟨after, (run_bind_of_ok hwrite _).trans hrun, fun hs => ?_⟩
    have hk : Host.Kept storage.file (fun k => number * 6656 ≤ k) host
        (host.writeAt storage.file (number * 6656) (Track.formatted volume (UInt8.ofNat number))) :=
      hs.kept_writeAt hfirst fun k hlo _ => hlo
    obtain ⟨hk', hslices⟩ := hwritten (hs.kept hk)
    -- The later tracks lie behind this one, and leave it as it was written.
    have hk'' : Host.Kept storage.file (fun k => number * 6656 ≤ k) _ after :=
      hk'.mono fun k hk => Nat.le_trans (Nat.mul_le_mul_right _ (Nat.le_succ _)) hk
    refine ⟨hk.trans hk'', fun t hlo hhi => ?_⟩
    by_cases he : t = number
    · subst he
      have hself := slice_overwrite_self (Nat.le_trans hfirst hs.size_le)
      rw [hsize, ← hs.contents_writeAt] at hself
      rw [← hself]
      exact slice_congr hk'.size_eq fun i hi hi' => hk'.byte_eq (by omega)
    · exact hslices t (by omega) (by omega)

/-- A created image is formatted, with sectors of zeros. -/
theorem formatted_create (hs : storage.Backed host) (hw : storage.readOnly = false) {blocks : Nat}
    {tracks : Nat} (htracks : tracksFor blocks = .ok tracks)
    (hle : tracks * trackSize ≤ storage.size) (volume : UInt8) (policy : SyncPolicy) :
    ∃ after, (create storage blocks volume policy).run host = .ok (ofTracks 0 tracks policy) after ∧
      Host.Kept storage.file (fun _ => True) host after ∧
      (ofTracks 0 tracks policy).Formatted storage.size (after.contents storage.file) volume
        fun _ _ => Bytes.zero 256 := by
  have hmax : tracks ≤ 255 := by
    unfold tracksFor at htracks
    split at htracks
    · cases htracks
    · split at htracks
      · cases htracks
        assumption
      · cases htracks
  have hle' : (0 + tracks) * trackSize ≤ storage.size := by
    rw [Nat.zero_add]
    exact hle
  obtain ⟨after, hrun, hwritten⟩ :=
    run_formatFrom hw volume tracks host hle' (hs.reaches (Nat.le_refl _))
  obtain ⟨hk, hslices⟩ := hwritten hs
  refine ⟨after, ?_, hk.mono fun _ _ => trivial, ?_, hmax, fun {t} ht => ?_, fun _ hi => nomatch hi⟩
  · rw [create, htracks]
    exact run_bind_of_ok hrun _
  · rw [ofTracks, Nat.zero_add]
    exact hle
  · have hslice := hslices t (Nat.zero_le t) (by rw [Nat.zero_add]; exact ht)
    rw [ofTracks, trackOffset, Nat.zero_add, hslice]
    exact Track.formatted_formatted volume _

/-- A storage that can be written takes a new image, which holds zeros. -/
theorem run_create_of_writable {blocks tracks : Nat} (htracks : tracksFor blocks = .ok tracks)
    (hle : tracks * trackSize ≤ storage.size) (hw : storage.readOnly = false)
    (hreach : storage.Reaches host storage.size) (volume : UInt8) (policy : SyncPolicy) :
    ∃ after, (create storage blocks volume policy).run host =
        .ok (ofTracks 0 tracks policy) after ∧
      (storage.Backed host → Host.Kept storage.file (fun _ => True) host after ∧
        (ofTracks 0 tracks policy).Holds storage.size (after.contents storage.file)
          fun _ => Bytes.zero 512) := by
  have hle' : (0 + tracks) * trackSize ≤ storage.size := by rwa [Nat.zero_add]
  obtain ⟨after, hrun, -⟩ := run_formatFrom hw volume tracks host hle' hreach
  have hcreate : (create storage blocks volume policy).run host =
      .ok (ofTracks 0 tracks policy) after := by
    rw [create, htracks]
    exact run_bind_of_ok hrun _
  refine ⟨after, hcreate, fun hs => ?_⟩
  obtain ⟨after', hcreate', hk, hf⟩ := formatted_create hs hw htracks hle volume policy
  rw [hcreate] at hcreate'
  cases hcreate'
  refine ⟨hk, volume, _, hf, fun block _ => Bytes.ext_byte fun i _ => ?_⟩
  rw [blockOf, Bytes.byte_append, Bytes.byte_zero, Bytes.byte_zero, Bytes.byte_zero, ite_self]

/-- One that must not be written refuses the first track. -/
theorem run_create_of_readOnly [Medium] {blocks tracks : Nat}
    (htracks : tracksFor blocks = .ok tracks) (hpos : 0 < tracks) (hro : storage.readOnly = true)
    (volume : UInt8) (policy : SyncPolicy) (host : Host) :
    (create storage blocks volume policy).run host = .error .readOnly host := by
  obtain ⟨count, rfl⟩ := Nat.exists_eq_add_one.mpr hpos
  rw [create, htracks]
  exact run_bind_of_error (run_bind_of_error (Storage.run_write_of_readOnly hro ..) _) _

end Diskette.Layout.Nibble
