import Diskette.Proofs.Device.Opened

/-!
# Formatted nibble images stay well formed

Whatever is written to the sectors and blocks of a formatted image, its tracks stay formatted: no
sector that can be written looks like a field. The index that was made once therefore stays right,
and whoever opens the image later makes the same one.

* `Formatted.run_perform`: what one access does to a formatted image.
* `Formatted.run_performAll`: what a sequence of them does.
* `legible_of_performAll`: what is found in a created image that was written to and is opened anew.
-/

namespace Diskette.Layout.Nibble

open Gcr Diskette.Action

/-- What is done with the sectors and blocks of an image of tracks. -/
inductive SectorAccess where
  | readSector (track sector : Nat)
  | writeSector (track sector : Nat) (data : Sector)
  | readBlock (block : Nat)
  | writeBlock (block : Nat) (data : Block)

namespace SectorAccess

/-- Accesses an image. What is read is not kept. -/
def perform (storage : Storage) : SectorAccess → Action (Nibble × Host) Unit
  | readSector track sector => do
    let _ ← Nibble.readSector storage track sector
  | writeSector track sector data => Nibble.writeSector storage track sector data
  | readBlock block => do
    let _ ← Nibble.readBlock storage block
  | writeBlock block data => Nibble.writeBlock storage block data

/-- Accesses an image several times, up to the first failure. -/
def performAll (storage : Storage) : List SectorAccess → Action (Nibble × Host) Unit
  | [] => pure ()
  | access :: rest => do
    access.perform storage
    performAll storage rest

/-- The sector or the block is one of an image of `tracks` tracks. -/
def InRange (tracks : Nat) : SectorAccess → Prop
  | readSector track sector => track < tracks ∧ sector < 16
  | writeSector track sector _ => track < tracks ∧ sector < 16
  | readBlock block => block < tracks * 8
  | writeBlock block _ => block < tracks * 8

/-- The sector is replaced. -/
def Writes (track sector : Nat) : SectorAccess → Prop
  | writeSector track' sector' _ => track' = track ∧ sector' = sector
  | writeBlock block _ =>
    block / 8 = track ∧ ((blockSectors block).1 = sector ∨ (blockSectors block).2 = sector)
  | _ => False

/-- What the sectors hold after an access. -/
def apply (sectors : Nat → Nat → Sector) : SectorAccess → Nat → Nat → Sector
  | writeSector track sector data => replaceSector sectors track sector data
  | writeBlock block data => replaceBlock sectors block data
  | _ => sectors

/-- What the sectors hold after several accesses: what was last written to each. -/
def applyAll (sectors : Nat → Nat → Sector) (accesses : List SectorAccess) : Nat → Nat → Sector :=
  accesses.foldl apply sectors

theorem apply_of_not_writes {access : SectorAccess} {track sector : Nat}
    (h : ¬ access.Writes track sector) (sectors : Nat → Nat → Sector) :
    access.apply sectors track sector = sectors track sector := by
  cases access with
  | readSector | readBlock => rfl
  | writeSector track' sector' data =>
    rw [apply, replaceSector]
    by_cases ht : track = track'
    · subst ht
      rw [Function.update_self, Function.update_of_ne fun hs => h ⟨rfl, hs.symm⟩]
    · rw [Function.update_of_ne ht]
  | writeBlock block data =>
    rw [apply, replaceBlock]
    by_cases ht : track = block / 8
    · subst ht
      rw [Function.update_self, Function.update_of_ne fun hs => h ⟨rfl, .inr hs.symm⟩,
        Function.update_of_ne fun hs => h ⟨rfl, .inl hs.symm⟩]
    · rw [Function.update_of_ne ht]

theorem applyAll_of_not_writes {accesses : List SectorAccess} {track sector : Nat}
    (h : ∀ access ∈ accesses, ¬ access.Writes track sector) (sectors : Nat → Nat → Sector) :
    applyAll sectors accesses track sector = sectors track sector := by
  induction accesses generalizing sectors with
  | nil => rfl
  | cons access rest ih =>
    rw [applyAll, List.foldl_cons, ← applyAll, ih fun a ha => h a (List.mem_cons_of_mem _ ha)]
    exact apply_of_not_writes (h access List.mem_cons_self) sectors

theorem performAll_append (storage : Storage) (earlier later : List SectorAccess) :
    performAll storage (earlier ++ later) =
      (performAll storage earlier >>= fun _ => performAll storage later) := by
  induction earlier with
  | nil => rfl
  | cons access rest ih => simp only [List.cons_append, performAll, ih, bind_assoc]

end SectorAccess

open SectorAccess

variable {layout layout' created between last : Nibble} {storage fresh : Storage}
  {host laid middle after : Host} {volume : UInt8} {policy : SyncPolicy} {blocks : Nat}
  {sectors sectors' : Nat → Nat → Sector} {size : Nat} {data : ByteArray}
  {accesses earlier later : List SectorAccess}

/-! ## One access -/

theorem inRange_of_run_locate {t sector place : Nat} {state : Nibble × Host}
    (h : (locate storage t sector).run (layout, host) = .ok place state) :
    t < layout.tracks ∧ sector < 16 := by
  rw [locate, EStateM.run_bind] at h
  change (if _ : sector < 16 then _ else _ : Action (Nibble × Host) Nat).run (layout, host) = _ at h
  split at h
  · next hsector =>
    split at h
    · next ht => exact ⟨ht, hsector⟩
    · cases h
  · cases h

/-- An access that succeeds is one to a sector or a block of the image. -/
theorem inRange_of_run_perform {access : SectorAccess} {state : Nibble × Host}
    (h : (access.perform storage).run (layout, host) = .ok () state) :
    access.InRange layout.tracks := by
  cases access with
  | readSector track sector =>
    obtain ⟨_, _, h, -⟩ := exists_of_run_bind h
    obtain ⟨_, _, h, -⟩ := exists_of_run_bind h
    exact inRange_of_run_locate h
  | writeSector track sector data =>
    obtain ⟨_, _, h, -⟩ := exists_of_run_bind h
    exact inRange_of_run_locate h
  | readBlock block =>
    obtain ⟨_, _, h, -⟩ := exists_of_run_bind h
    obtain ⟨_, _, h, -⟩ := exists_of_run_bind h
    exact checkBlock_eq_ok_iff.mp (run_ask_eq_ok_iff.mp h).1
  | writeBlock block data =>
    obtain ⟨_, _, h, -⟩ := exists_of_run_bind h
    exact checkBlock_eq_ok_iff.mp (run_ask_eq_ok_iff.mp h).1

/-- A formatted image stays formatted, and each sector holds what was last written to it. -/
theorem Formatted.run_perform
    (h : layout.Formatted storage.size (host.contents storage.file) volume sectors)
    (hs : storage.Backed host) (hw : storage.readOnly = false) {access : SectorAccess}
    (hin : access.InRange layout.tracks) :
    ∃ after, (access.perform storage).run (layout, host) = .ok () (layout.surveyed, after) ∧
      Host.Kept storage.file layout.InData host after ∧
      layout.surveyed.Formatted storage.size (after.contents storage.file) volume
        (access.apply sectors) := by
  cases access with
  | readSector track sector =>
    exact ⟨host, run_bind_of_ok (h.run_readSector hs hin.1 hin.2) _, .refl, h.surveyed⟩
  | readBlock block => exact ⟨host, run_bind_of_ok (h.run_readBlock hs hin) _, .refl, h.surveyed⟩
  | writeSector track sector data => exact h.run_writeSector hs hw hin.1 hin.2 data
  | writeBlock block data => exact h.run_writeBlock hs hw hin data

/-! ## Many accesses -/

/-- What a sequence of successful accesses does to a formatted image. -/
theorem Formatted.run_performAll
    (h : layout.Formatted storage.size (host.contents storage.file) volume sectors)
    (hs : storage.Backed host) (hw : storage.readOnly = false)
    (hrun : (performAll storage accesses).run (layout, host) = .ok () (layout', after)) :
    layout'.surveyed = layout.surveyed ∧ Host.Kept storage.file layout.InData host after ∧
      layout'.Formatted storage.size (after.contents storage.file) volume
        (applyAll sectors accesses) := by
  induction accesses generalizing layout host sectors with
  | nil =>
    cases hrun
    exact ⟨rfl, .refl, h⟩
  | cons access rest ih =>
    obtain ⟨⟨⟩, ⟨_, _⟩, hfirst, hrest⟩ := exists_of_run_bind hrun
    obtain ⟨middle, heq, hkept, hmiddle⟩ := h.run_perform hs hw (inRange_of_run_perform hfirst)
    rw [heq] at hfirst
    cases hfirst
    obtain ⟨hlayout, hkept', hafter⟩ := ih hmiddle (hs.kept hkept) hrest
    exact ⟨hlayout, hkept.trans hkept', hafter⟩

/-- Accesses to sectors and blocks of a formatted image succeed. -/
theorem Formatted.exists_run_performAll
    (h : layout.Formatted storage.size (host.contents storage.file) volume sectors)
    (hs : storage.Backed host) (hw : storage.readOnly = false)
    (hin : ∀ access ∈ accesses, access.InRange layout.tracks) :
    ∃ layout' after, (performAll storage accesses).run (layout, host) = .ok () (layout', after) := by
  induction accesses generalizing layout host sectors with
  | nil => exact ⟨layout, host, rfl⟩
  | cons access rest ih =>
    obtain ⟨middle, heq, hkept, hmiddle⟩ := h.run_perform hs hw (hin access List.mem_cons_self)
    obtain ⟨layout', after, hrun⟩ :=
      ih hmiddle (hs.kept hkept) fun a ha => hin a (List.mem_cons_of_mem _ ha)
    exact ⟨layout', after, (run_bind_of_ok heq _).trans hrun⟩

/-- The places in the file of the data field of a sector. -/
def InField (layout : Nibble) (track sector k : Nat) : Prop :=
  layout.trackOffset track + Track.dataPlace sector ≤ k ∧
    k < layout.trackOffset track + Track.dataPlace sector + 343

/-- Two formatted images differ only in the data fields of sectors that differ. -/
theorem Formatted.kept
    (h : layout.Formatted size (host.contents storage.file) volume sectors)
    (h' : layout'.Formatted size (after.contents storage.file) volume sectors')
    (hlayout : layout'.surveyed = layout.surveyed)
    (hkept : Host.Kept storage.file layout.InData host after) :
    Host.Kept storage.file
      (fun k => ∃ t s, sectors' t s ≠ sectors t s ∧ layout.InField t s k) host after := by
  refine ⟨hkept.access_eq, hkept.contents_eq, hkept.size_eq, fun {k} hfree => ?_⟩
  by_cases hdata : layout.InData k
  · obtain ⟨t, i, ht, hi, rfl⟩ : ∃ t i, t < layout.tracks ∧ i < trackSize ∧
        k = layout.trackOffset t + i := by
      obtain ⟨hlo, hhi⟩ := hdata
      refine ⟨(k - layout.base) / 6656, (k - layout.base) % 6656, ?_, ?_, ?_⟩
      · unfold trackSize at hhi
        omega
      · exact Nat.mod_lt _ (by decide)
      · unfold trackOffset trackSize
        omega
    have htracks : layout'.surveyed.tracks = layout.surveyed.tracks := congrArg _ hlayout
    have hoffset : layout'.surveyed.trackOffset t = layout.surveyed.trackOffset t :=
      congrArg (trackOffset · t) hlayout
    have htrack' := h'.surveyed.track (t := t) (by rwa [htracks])
    rw [hoffset] at htrack'
    have hbyte := (h.track ht).byteAt_eq htrack' hi fun s _ hlo hhi => by
      by_contra hne
      exact hfree ⟨t, s, hne, Nat.add_le_add_left hlo _, by omega⟩
    rwa [byteAt_slice, byteAt_slice, if_pos hi, if_pos hi] at hbyte
  · exact hkept.byte_eq hdata

/-! ## Opening anew -/

/-- What is found in the file of an image of tracks that is opened as `reopened`: each sector of
each track has a place, the one that `index` says, and reads as one of `sectors` without a
warning. -/
structure Legible (storage : Storage) (reopened : Nibble) (host : Host)
    (index : Array SectorIndex) (sectors : Nat → Nat → Sector) : Prop where
  survey : (ensureIndex storage).run (reopened, host) =
    .ok index ({ reopened with index := some index }, host)
  located {track sector : Nat} (ht : track < reopened.tracks) (hs : sector < 16) :
    ((index[track]?).bind (·[sector])) = some (Track.dataPlace sector)
  decoded {track sector : Nat} (ht : track < reopened.tracks) (hs : sector < 16) :
    ∃ bytes, reopened.readTrack storage host track = .ok bytes ∧
      decodeSector (Track.field 343 bytes (Track.dataPlace sector)) = .ok ⟨sectors track sector, true⟩
  read {track sector : Nat} (ht : track < reopened.tracks) (hs : sector < 16) :
    (readSector storage track sector).run (reopened, host) =
      .ok (sectors track sector) ({ reopened with index := some index }, host)


/-- A formatted image that is opened anew, under any policy, is formatted. -/
theorem Formatted.anew {tracks size' : Nat} {reopening : SyncPolicy}
    (h : layout.Formatted size data volume sectors)
    (hlayout : layout.surveyed = (ofTracks 0 tracks policy).surveyed)
    (hle : 0 + tracks * trackSize ≤ size') :
    (ofTracks 0 tracks reopening).Formatted size' data volume sectors := by
  have h' := h.surveyed
  rw [hlayout] at h'
  exact ⟨hle, h'.tracks_le, h'.track, fun _ hi => nomatch hi⟩

/-- A formatted image is legible. -/
theorem Formatted.legible {tracks : Nat}
    (h : (ofTracks 0 tracks policy).Formatted storage.size (host.contents storage.file) volume
      sectors)
    (hs : storage.Backed host) :
    Legible storage (ofTracks 0 tracks policy) host (formattedIndex tracks) sectors where
  survey := h.run_ensureIndex hs
  located := by
    intro track sector ht hsector
    have ht' : track < tracks := ht
    simp [formattedIndex, ht', Track.formattedIndex]
  decoded := by
    intro track sector ht hsector
    exact ⟨_, h.readTrack_eq hs ht, (h.track ht).decode_field hsector⟩
  read := by
    intro track sector ht hsector
    exact h.run_readSector hs ht hsector

/-- The file of a formatted image opens anew, under any policy, and is legible. -/
theorem Formatted.reopened {backing : Backing} {readOnly : Bool} {tracks : Nat}
    (h : layout.Formatted size (after.contents storage.file) volume sectors)
    (hlayout : layout.surveyed = (ofTracks 0 tracks policy).surveyed)
    (hsize : (after.contents storage.file).size = tracks * trackSize) (hpos : tracks ≠ 0)
    (h255 : tracks ≤ 255)
    (hopen : Storage.openFile after storage.file backing readOnly = .ok fresh)
    (reopening : SyncPolicy) :
    (Container.openAs .nibble fresh reopening).run after =
        .ok ⟨.bare, .nibble (ofTracks 0 tracks reopening)⟩ after ∧
      Legible fresh (ofTracks 0 tracks reopening) after (formattedIndex tracks) sectors := by
  have hs := Storage.openFile_backed hopen
  obtain ⟨-, _, rfl⟩ := Storage.exists_of_openFile hopen
  have hin : tracksIn (after.contents storage.file).size = .ok tracks := by
    rw [hsize, tracksIn, Nat.mul_div_cancel _ (by decide), if_pos h255,
      if_neg (by unfold trackSize; omega)]
  have hle : 0 + tracks * trackSize ≤ (after.contents storage.file).size := by
    rw [hsize, Nat.zero_add]
  refine ⟨?_, Formatted.legible (h.anew hlayout hle) hs⟩
  unfold Container.openAs Storage.ofSize
  rw [hin]
  rfl

/-- Only a storage that can be written takes a new image. -/
theorem writable_of_run_create {tracks : Nat} (htracks : tracksFor blocks = .ok (tracks + 1))
    (h : (create storage blocks volume policy).run host = .ok created laid) :
    storage.readOnly = false := by
  rw [create, htracks] at h
  obtain ⟨_, _, hcount, h⟩ := exists_of_run_bind h
  cases hcount
  obtain ⟨⟨⟩, _, h, -⟩ := exists_of_run_bind h
  obtain ⟨⟨⟩, _, h, -⟩ := exists_of_run_bind h
  exact (Storage.run_write_eq_ok_iff.mp h).1

/-- A created image stays well formed. Whatever its sectors and blocks were read and written, in
whatever order: opened anew, its index can be made without a warning, and it is the one that the
image at any earlier time was known by; every sector reads as what was last written to it; and the
file is as it was created but for the data fields of sectors that were written. -/
theorem legible_of_performAll {backing : Backing} {readOnly : Bool} (reopening : SyncPolicy)
    (hs : storage.Backed host) (hlen : (host.contents storage.file).size = storage.size)
    (hsize : Format.nibble.fileSize blocks = .ok storage.size)
    (hcreate : (create storage blocks volume policy).run host = .ok created laid)
    (hearlier : (performAll storage earlier).run (created, laid) = .ok () (between, middle))
    (hlater : (performAll storage later).run (between, middle) = .ok () (last, after))
    (hopen : Storage.openFile after storage.file backing readOnly = .ok fresh) :
    ∃ reopened index,
      (Container.openAs .nibble fresh reopening).run after = .ok ⟨.bare, .nibble reopened⟩ after ∧
      reopened.tracks * 8 = blocks ∧
      reopened.Legible fresh after index
        (applyAll (fun _ _ => Bytes.zero 256) (earlier ++ later)) ∧
      (∀ known, between.index = some known → known = index) ∧
      Host.Kept storage.file
        (fun k => ∃ access ∈ earlier ++ later, ∃ t s, access.Writes t s ∧ created.InField t s k)
        laid after := by
  obtain ⟨hbytes, h8, h255⟩ := Image.nibble_size hsize
  have hne := Image.blocks_ne_zero hsize
  have htracks : tracksFor blocks = .ok (blocks / 8) := by
    rw [tracksFor, if_neg (by omega), if_pos h255]
  have hsome : tracksFor blocks = .ok (blocks / 8 - 1 + 1) := by
    rw [htracks, Nat.sub_add_cancel (by omega)]
  have hw := writable_of_run_create hsome hcreate
  obtain ⟨_, hrun, hkept, hlaid⟩ :=
    formatted_create hs hw htracks (Nat.le_of_eq hbytes.symm) volume policy
  rw [hcreate] at hrun
  cases hrun
  have hs' := hs.kept hkept
  obtain ⟨hbetween, -, hmiddle⟩ := hlaid.run_performAll hs' hw hearlier
  -- Both runs are one, so what is left at the end is told by the run from the fresh image.
  have hall : (performAll storage (earlier ++ later)).run (ofTracks 0 (blocks / 8) policy, laid) =
      .ok () (last, after) := by
    rw [performAll_append]
    exact (run_bind_of_ok hearlier _).trans hlater
  obtain ⟨hlast, hkept', hafter⟩ := hlaid.run_performAll hs' hw hall
  have hsize' : (after.contents storage.file).size = blocks / 8 * 6656 := by
    rw [hkept'.size_eq, hkept.size_eq, hlen, hbytes]
  obtain ⟨hreopened, hlegible⟩ := hafter.reopened hlast hsize' (by omega) h255 hopen reopening
  refine ⟨_, _, hreopened, Nat.div_mul_cancel (Nat.dvd_of_mod_eq_zero h8), hlegible, ?_, ?_⟩
  · intro known hknown
    rw [hmiddle.index_eq known hknown]
    exact congrArg (fun layout => formattedIndex layout.tracks) hbetween
  · refine (hlaid.kept hafter hlast hkept').mono ?_
    rintro k ⟨t, s, hne, hfield⟩
    -- A track that is in no field of a write keeps its sectors, and with them its bytes.
    by_contra hno
    refine hne (applyAll_of_not_writes (fun access hmem hwrites => ?_) _)
    exact hno ⟨access, hmem, t, s, hwrites, hfield⟩

/-- A sector and a block of an image of two tracks are written, and a block is read in between. -/
theorem legible_of_performAll_twoTracks :
    let host : Host := ⟨[⟨"disk.nib", zeros 13312, .readWrite⟩], #[]⟩
    let storage := Storage.ofSize "disk.nib" 13312 .mapped false
    let first : SectorAccess := .writeSector 1 15 (.tabulate 256 .ofNat)
    let second : SectorAccess := .writeBlock 8 (.tabulate 512 .ofNat)
    ∃ created laid between middle last after fresh reopened index,
      (create storage 16 254 .bestEffort).run host = .ok created laid ∧
      (performAll storage [first, .readBlock 3]).run (created, laid) = .ok () (between, middle) ∧
      (performAll storage [second]).run (between, middle) = .ok () (last, after) ∧
      Storage.openFile after "disk.nib" .descriptor true = .ok fresh ∧
      (Container.openAs .nibble fresh .strict).run after = .ok ⟨.bare, .nibble reopened⟩ after ∧
      reopened.Legible fresh after index
        (applyAll (fun _ _ => Bytes.zero 256) [first, .readBlock 3, second]) := by
  intro host storage first second
  have hfind : host.find? "disk.nib" = some ⟨"disk.nib", zeros 13312, .readWrite⟩ := rfl
  have hcontents : (host.contents storage.file).size = storage.size := by
    change (host.contents "disk.nib").size = 13312
    simp only [Host.contents, hfind, size_zeros]
  have hs : storage.Backed host := ⟨rfl, Nat.le_of_eq hcontents.symm⟩
  have hw : storage.readOnly = false := rfl
  have hsize : Format.nibble.fileSize 16 = .ok storage.size := rfl
  obtain ⟨laid, hcreate, hkept, hlaid⟩ :=
    formatted_create hs hw (show tracksFor 16 = .ok 2 from rfl) (Nat.le_refl _) 254 .bestEffort
  have hearlier : ∀ access ∈ [first, .readBlock 3], access.InRange 2 := by
    simp [first, InRange]
  obtain ⟨between, middle, hfirst⟩ := hlaid.exists_run_performAll (hs.kept hkept) hw hearlier
  obtain ⟨hbetween, hkept₁, hmiddle⟩ := hlaid.run_performAll (hs.kept hkept) hw hfirst
  have hlater : ∀ access ∈ [second], access.InRange between.surveyed.tracks := by
    rw [hbetween]
    simp [second, InRange, surveyed, ofTracks]
  obtain ⟨last, after, hsecond⟩ :=
    hmiddle.exists_run_performAll ((hs.kept hkept).kept hkept₁) hw hlater
  obtain ⟨-, hkept₂, -⟩ := hmiddle.run_performAll ((hs.kept hkept).kept hkept₁) hw hsecond
  have haccess : after.access? storage.file = some .readWrite := by
    rw [hkept₂.access_eq, hkept₁.access_eq, hkept.access_eq]
    simp only [storage, Storage.ofSize, Host.access?, hfind, Option.map_some]
  have hopen := Storage.openFile_of_access? haccess .descriptor true
  obtain ⟨reopened, index, hreopen, -, hlegible, -⟩ :=
    legible_of_performAll .strict hs hcontents hsize hcreate hfirst hsecond hopen
  exact ⟨_, _, _, _, _, _, _, _, _, hcreate, hfirst, hsecond, hopen, hreopen, hlegible⟩

end Diskette.Layout.Nibble
