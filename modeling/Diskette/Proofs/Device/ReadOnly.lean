import Diskette.Proofs.Device.Image
import Diskette.Proofs.Device.Opened
import Diskette.Proofs.Device.Steady
import Diskette.Proofs.Fork.Refused
import Diskette.Proofs.Upheld

/-!
# Read-only devices

A device is read-only because it was to be opened so, because its file cannot be written, or because
its header is locked. Only the last one leaves a storage that could be written, and even one that is
mapped. Nothing that is done with such a device, by itself or through caches, changes a file, and
all that would have to write fails.

* `Device.Guarded`: a read-only device before files that have not changed.
* `Device.upholds_guarded`: every access keeps that.
* `Cache.Sealed`, `Mount.Sealed`: all that would have to write fails.
* `Device.sealed_of_openFile`: a device that was opened read-only, however it is used and ended.
-/

namespace Diskette

open Diskette.Action

variable {storage : Storage} {files : List File} {n : Nat}

/-! ## Reading -/

/-- The files are as they were. -/
abbrev KeepsFiles {α σ : Type} (act : Action (σ × Host) α) : Prop :=
  Retains (fun state : σ × Host => state.2.files) act

theorem files_warn (warning : Warning) :
    Retains Host.files (modify fun host => host.warn warning) := retains_modify fun _ => rfl

namespace Layout.Nibble

open Gcr

private theorem files_reportAll (policy : SyncPolicy) (number : Nat) (findings : List Finding) :
    Retains Host.files (Survey.reportAll policy number findings) := by
  induction findings with
  | nil => exact retains_pure ()
  | cons finding rest ih =>
    cases finding with
    | unreadable start cause => exact (files_warn _).bind fun _ => ih
    | damage damage =>
      cases policy with
      | strict => exact retains_throw _
      | bestEffort => exact (files_warn _).bind fun _ => ih

private theorem files_surveyFrom (layout : Nibble) (storage : Storage) (count : Nat) :
    ∀ number index, Retains Host.files (surveyFrom layout storage count number index) := by
  induction count with
  | zero => exact fun _ _ => retains_pure _
  | succ count ih =>
    exact fun _ _ => (retains_ask _).bind fun _ =>
      ((files_reportAll _ _ _).bind fun _ => retains_pure _).bind fun _ => ih _ _

theorem files_ensureIndex (storage : Storage) : KeepsFiles (ensureIndex storage) := by
  rintro ⟨⟨base, tracks, policy, index⟩, host⟩
  cases index with
  | some index => rfl
  | none =>
    have hends := files_surveyFrom ⟨base, tracks, policy, none⟩ storage tracks 0 #[] host
    unfold Ends EStateM.run at hends
    unfold Ends EStateM.run ensureIndex
    dsimp only
    cases hr : surveyFrom ⟨base, tracks, policy, none⟩ storage tracks 0 #[] host with
    | ok index after => rw [hr] at hends; exact hends
    | error e after => rw [hr] at hends; exact hends

theorem files_decodeAt (bytes : ByteArray) (place track sector : Nat) :
    Retains Host.files (decodeAt bytes place track sector) := by
  refine (retains_ofExcept _).bind fun decoded => ?_
  split
  · exact retains_pure _
  · exact (files_warn _).bind fun _ => retains_pure _

private theorem files_onSecond_decodeAt (bytes : ByteArray) (place track sector : Nat) :
    KeepsFiles (onSecond (decodeAt bytes place track sector) : Action (Nibble × Host) Sector) := by
  rintro ⟨layout, host⟩
  exact ends_onSecond.mpr (files_decodeAt bytes place track sector host)

theorem files_readBlock (storage : Storage) (block : Nat) : KeepsFiles (readBlock storage block) :=
  retains_readBlock (files_ensureIndex storage) files_onSecond_decodeAt block

end Layout.Nibble

namespace Container

private theorem files_openDiskCopy (storage : Storage) :
    Retains Host.files (openDiskCopy storage) := by
  refine (retains_ask _).bind fun head => (retains_ofExcept _).bind fun header =>
    (retains_ask _).bind fun data => ?_
  dsimp only
  split
  · exact (files_warn _).bind fun _ => retains_pure _
  · exact retains_pure _

private theorem files_openAs (format : Format) (storage : Storage) (policy : Gcr.SyncPolicy) :
    Retains Host.files (openAs format storage policy) := by
  cases format with
  | proDosOrder => exact retains_ofExcept _
  | dosOrder => exact retains_ofExcept _
  | nibble => exact retains_ofExcept _
  | twoImg => exact retains_ask _
  | diskCopy42 => exact files_openDiskCopy storage
  | davex => exact retains_ask _

theorem files_openFile (storage : Storage) (path : String) (options : DeviceOptions) :
    Retains Host.files (openFile storage path options) := by
  unfold openFile
  split
  · exact files_openAs _ _ _
  · exact (retains_ask _).bind fun _ => files_openAs _ _ _

end Container

theorem Container.locked_iff {container : Container} :
    container.locked = true ↔
      ∃ header, container.envelope = .twoImg header ∧ header.locked = true := by
  unfold Container.locked
  cases container.envelope <;> simp

/-- A storage is read-only exactly if it was to be opened so, or if its file cannot be written. -/
theorem Storage.readOnly_openFile_iff {host : Host} {file : String} {backing : Backing}
    {readOnly : Bool} (h : Storage.openFile host file backing readOnly = .ok storage) :
    storage.readOnly = true ↔ readOnly = true ∨ host.access? file ≠ some .readWrite := by
  have hopened {readOnly' : Bool}
      (h : (host.checkReadable file >>= fun _ => ofFile host file backing readOnly') =
        .ok storage) : storage.readOnly = readOnly' := by
    rw [ofFile_eq] at h
    cases hr : host.checkReadable file <;> rw [hr] at h <;> cases h
    rfl
  cases readOnly with
  | true => simp [hopened h]
  | false =>
    by_cases ha : host.access? file = some .readWrite
    · rw [Storage.openFile_of_access? ha] at h
      cases h
      simp [ha, Storage.ofSize]
    · unfold Storage.openFile Host.checkWritable Host.lookUp at h
      unfold Host.access? at ha
      cases hf : host.find? file with
      | none => simp [hf] at h
      | some found =>
        have hrefused : found.access ≠ .readWrite := by simpa [hf] using ha
        by_cases hremoved : found.access = .removed
        · simp [hf, hremoved] at h
        · simp only [hf, if_neg hremoved, if_neg hrefused] at h
          simp [hopened h, Host.access?, hf, hrefused]

namespace Device

theorem files_openFile [Medium] (file : String) (options : DeviceOptions) :
    Retains Host.files (openFile file options) :=
  (retains_ask _).bind fun storage => (Container.files_openFile storage file options).bind fun _ =>
    retains_pure _

/-! ## Protection -/

/-- A read-only device that nothing was written to, before files that are as they were. -/
structure Guarded (files : List File) (n : Nat) (state : Device × Host) : Prop where
  readOnly_eq : state.1.readOnly = true
  modified_eq : state.1.modified = false
  files_eq : state.2.files = files
  count_eq : n = 0

variable {state : Device × Host}

theorem checkWrite_of_readOnly {device : Device} (h : device.readOnly = true) (block : Nat) :
    ∃ e, device.checkWrite block = .error e := by
  cases hcheck : device.checkWrite block with
  | error e => exact ⟨e, rfl⟩
  | ok _ =>
    rw [(checkWrite_eq_ok_iff.mp hcheck).2] at h
    cases h

theorem retains_read (block : Nat) :
    Retains (fun state : Device × Host => (state.1.readOnly, state.1.modified, state.2.files))
      (read block) := by
  refine (retains_ask _).bind fun _ => retains_onContainer fun storage readOnly modified =>
    Container.retains_onLayout fun envelope => Layout.retains_readBlock (fun block state => ?_) block
  refine (Layout.Nibble.files_readBlock storage block state).mono fun _ after h => ?_
  exact congrArg (fun files => (readOnly, modified, files)) h

/-- Every access keeps a read-only device what it is, and its file. -/
theorem upholds_guarded (files : List File) : Upholds Medium.Any True (Guarded files) where
  readOnly_eq _ h := h.readOnly_eq
  warn h _ := ⟨h.readOnly_eq, h.modified_eq, h.files_eq, h.count_eq⟩
  read {_ state} h block := by
    refine (retains_read block state).mono fun _ after hafter => ?_
    obtain ⟨hreadOnly, hrest⟩ := Prod.mk.inj hafter
    obtain ⟨hmodified, hfiles⟩ := Prod.mk.inj hrest
    exact ⟨hreadOnly.trans h.readOnly_eq, hmodified.trans h.modified_eq,
      hfiles.trans h.files_eq, h.count_eq⟩
  write {_ state} _ _ h block data := by
    obtain ⟨e, he⟩ := checkWrite_of_readOnly h.readOnly_eq block
    exact (ends_of_run_eq_error (run_write_of_error he data)).mpr h
  flush {_ state} _ _ h :=
    (ends_of_run_eq_ok (run_flush_of_not_modified state.2 h.modified_eq)).mpr h
  update {_ state} h _ block change := by
    have hrun : (updateMapped block change).run state = .error .readOnly state := by
      unfold updateMapped
      rw [EStateM.run_bind, run_ask]
      simp only [writableOffset, h.readOnly_eq, if_true]
    exact (ends_of_run_eq_error hrun).mpr h

/-- A device is read-only exactly if it was to be opened so, if its file cannot be written, or if its
header is locked. -/
theorem readOnly_openFile_iff [Medium] {file : String} {options : DeviceOptions} {host opened : Host}
    {device : Device} (h : (openFile file options).run host = .ok device opened) :
    device.readOnly = true ↔ options.readOnly = true ∨ host.access? file ≠ some .readWrite ∨
      ∃ header, device.container.envelope = .twoImg header ∧ header.locked = true := by
  obtain ⟨storage, container, hstorage, -, rfl⟩ := exists_of_openFile h
  simp only [Bool.or_eq_true, Storage.readOnly_openFile_iff (Storage.openFile_of_ok hstorage),
    Container.locked_iff, or_assoc]

/-- Nothing is written to a file when its device is ended that nothing was written to. -/
theorem files_dispose [Medium] {files : List File} {device : Device} {host : Host}
    (h : Guarded files n (device, host)) : (device.dispose host).files = files := by
  have hflush : flush (device, host) = .ok () (device, host) :=
    run_flush_of_not_modified host h.modified_eq
  unfold dispose
  rw [hflush]
  exact h.files_eq

end Device

/-! ## What fails -/

namespace BlockCache

variable {κ : Type} [BlockCache κ] {cache : κ}

/-- A block is not replaced if it cannot be changed once it is checked out. -/
theorem fails_writeBlock (block : Nat) (bytes : Block)
    (h : Ends (acquire block) cache fun _ after =>
      ∀ handle change, Fails (update handle change) after) :
    Fails (writeBlock block bytes) cache := by
  refine h.fails_bind fun handle after hupdate => ?_
  obtain ⟨e, he⟩ := hupdate handle fun _ => bytes
  refine fails_iff.mpr ?_
  simp only [ends_bind, ends_attempt, ends_ofExcept]
  rw [ends_iff, he]
  simp only [Except.isOk, Except.toBool]
  rw [ends_iff]
  exact ⟨e, rfl⟩

end BlockCache

namespace Pool

variable {δ : Type} [Disk δ] {pool : Pool} {disk : δ}

theorem fails_flag (h : Disk.readOnly disk = true) (slot : Nat) : Fails (flag slot) (pool, disk) := by
  refine Fails.bind (fails_ask (e := .readOnly) ?_) _
  exact if_pos h

theorem fails_update (h : Disk.readOnly disk = true) (handle : Handle) (change : Block → Block) :
    Fails (update handle change) (pool, disk) := by
  cases hc : pool.checkedOut handle with
  | error e =>
    refine Fails.bind (fails_ask (e := e) ?_) _
    simp [hc, bind, Except.bind]
  | ok entry =>
    refine Fails.bind (fails_ask (e := .readOnly) ?_) _
    simp [hc, bind, Except.bind, h, throw, throwThe, MonadExceptOf.throw]

theorem fails_release (h : Disk.readOnly disk = true) (handle : Handle) (commit : Bool) :
    Fails (release handle true commit) (pool, disk) := by
  have hsettle : Fails (settle handle.slot true commit) (pool, disk) :=
    (fails_flag h handle.slot).bind _
  unfold release
  rw [fails_iff] at hsettle ⊢
  simp only [ends_bind, ends_ask, ends_attempt, ends_ofExcept]
  cases pool.checkedOut handle with
  | error e => exact ⟨e, rfl⟩
  | ok entry =>
    refine hsettle.mono ?_
    rintro _ after ⟨e, rfl⟩
    exact ⟨e, rfl⟩

theorem fails_markDirty (h : Disk.readOnly disk = true) (block : Nat) :
    Fails (markDirty block) (pool, disk) := by
  unfold Fails outcome EStateM.run markDirty
  dsimp only
  cases pool.find? block with
  | some slot => exact fails_flag h slot
  | none => exact ⟨_, rfl⟩

end Pool

namespace Mapping

variable {mapping : Mapping} {device : Device} {host : Host}

theorem fails_flag (h : device.readOnly = true) (block : Nat) :
    Fails (flag block) (mapping, device, host) := by
  refine Fails.bind (fails_ask (e := .readOnly) ?_) _
  exact if_pos h

theorem fails_update (h : device.readOnly = true) (handle : Handle) (change : Block → Block) :
    Fails (update handle change) (mapping, device, host) := by
  have hupdate : Fails (Device.updateMapped handle.block change) (device, host) := by
    refine Fails.bind (fails_ask (e := .readOnly) ?_) _
    exact if_pos h
  exact fails_iff.mpr (ends_onSecond.mpr (fails_iff.mp hupdate))

theorem fails_release [Medium] (h : device.readOnly = true) (handle : Handle) (commit : Bool) :
    Fails (release handle true commit) (mapping, device, host) :=
  (ends_ask.mpr rfl : Ends _ _ fun _ after => after = (mapping, device, host)).fails_bind
    fun _ _ heq => heq ▸ (fails_flag h handle.block).bind _

theorem fails_markDirty (h : device.readOnly = true) (block : Nat) :
    Fails (markDirty block) (mapping, device, host) :=
  (ends_ask.mpr rfl : Ends _ _ fun _ after => after = (mapping, device, host)).fails_bind
    fun _ _ heq => heq ▸ fails_flag h block

end Mapping

namespace Cache

/-- All that would have to write fails, nothing is marked as changed, and a fork that is not written
takes no block. -/
structure Sealed [Medium] (state : Cache × Host) : Prop where
  clean : state.1.Clean
  writeBlock (block : Nat) (bytes : Block) : Fails (BlockCache.writeBlock block bytes) state
  zeroBlock (block : Nat) : Fails (BlockCache.zeroBlock block) state
  update (handle : Handle) (change : Block → Block) : Fails (BlockCache.update handle change) state
  release (handle : Handle) (commit : Bool) : Fails (BlockCache.release handle true commit) state
  markDirty (block : Nat) : Fails (BlockCache.markDirty block) state
  writeFork (data : ByteArray) (bitmap : Bitmap) :
    Fails (Diskette.writeFork data) (state, bitmap) ∧
      bitmap.Alike ((Diskette.writeFork data).stateAfter (state, bitmap)).2
  writeExtended (data resource : ByteArray) (bitmap : Bitmap) :
    Fails (Diskette.writeExtended data resource) (state, bitmap) ∧
      bitmap.Alike ((Diskette.writeExtended data resource).stateAfter (state, bitmap)).2

/-- What fails for the pool and the mapping alike fails for the cache. -/
theorem fails_run [Medium] {α : Type} {act : ∀ {κ : Type} [BlockCache κ], Action κ α} {cache : Cache}
    {host : Host} (hpool : ∀ pool : Pool, Fails act (pool, cache.device, host))
    (hmapping : ∀ mapping : Mapping, Fails act (mapping, cache.device, host)) :
    Fails (run act) (cache, host) := by
  obtain ⟨strategy, device⟩ := cache
  cases strategy with
  | pooled pool =>
    obtain ⟨e, he⟩ := hpool pool
    refine ⟨e, ?_⟩
    unfold outcome EStateM.run run runPooled at *
    dsimp only at he ⊢
    cases hr : act (pool, device, host) with
    | ok a after => rw [hr] at he; cases he
    | error e' after => rw [hr] at he; exact he
  | mapped mapping =>
    obtain ⟨e, he⟩ := hmapping mapping
    refine ⟨e, ?_⟩
    unfold outcome EStateM.run run runMapped at *
    dsimp only at he ⊢
    cases hr : act (mapping, device, host) with
    | ok a after => rw [hr] at he; cases he
    | error e' after => rw [hr] at he; exact he

/-- A read-only cache cannot be changed through a handle. -/
theorem fails_update [Medium] {cache : Cache} {host : Host} (h : cache.device.readOnly = true)
    (handle : Handle) (change : Block → Block) :
    Fails (BlockCache.update handle change) (cache, host) :=
  fails_run (fun _ => Pool.fails_update h handle change) fun _ => Mapping.fails_update h handle change

theorem uniform_acquire (block : Nat) : Uniform fun _ _ => BlockCache.acquire block :=
  fun _ _ _ _ _ hR _ _ h => hR.acquire h block

/-- A read-only cache of which nothing is marked as changed is sealed. -/
theorem Upheld.sealed [Medium] {files : List File} {state : Cache × Host}
    (h : Upheld True (Device.Guarded files) n state) : Sealed state := by
  obtain ⟨cache, host⟩ := state
  have hro : cache.device.readOnly = true := h.inv.readOnly_eq
  have hwriteBlock (block : Nat) (bytes : Block) :
      Fails (BlockCache.writeBlock block bytes) (cache, host) := by
    have hacquired := (Device.upholds_guarded files).run trivial (uniform_acquire block) h
    refine BlockCache.fails_writeBlock block bytes (ends_iff.mpr ?_)
    exact fails_update hacquired.inv.readOnly_eq
  exact
    { clean := h.clean trivial
      writeBlock := hwriteBlock
      zeroBlock := fun block => hwriteBlock block _
      update := fails_update hro
      release := fun handle commit => fails_run (fun _ => Pool.fails_release hro handle commit)
        fun _ => Mapping.fails_release hro handle commit
      markDirty := fun block => fails_run (fun _ => Pool.fails_markDirty hro block)
        fun _ => Mapping.fails_markDirty hro block
      writeFork := writeFork_refused hwriteBlock
      writeExtended := writeExtended_refused hwriteBlock }

end Cache

/-! ## Whatever is done -/

/-- All that would have to write fails. -/
def Mount.Sealed [Medium] (host : Host) : Mount → Prop
  | bare device => ∀ block data, Fails (Device.write block data) (device, host) ∧
      Fails (Device.zeroBlock block) (device, host)
  | cached cache => Cache.Sealed (cache, host)

theorem Mount.Upheld.sealed [Medium] {files : List File} {host : Host} {mount : Mount}
    (h : mount.Upheld True (Device.Guarded files) n host) : mount.Sealed host := by
  cases mount with
  | bare device =>
    have hwrite (block : Nat) (data : Block) : Fails (Device.write block data) (device, host) := by
      obtain ⟨e, he⟩ := Device.checkWrite_of_readOnly h.readOnly_eq block
      exact fails_iff.mpr
        ((ends_of_run_eq_error (Device.run_write_of_error he data)).mpr ⟨e, rfl⟩)
    exact fun block data => ⟨hwrite block data, hwrite block _⟩
  | cached cache => exact Cache.Upheld.sealed h

theorem Mount.Upheld.files_eq {files : List File} {host : Host} {mount : Mount}
    (h : mount.Upheld True (Device.Guarded files) n host) : host.files = files := by
  cases mount with
  | bare device => exact Device.Guarded.files_eq h
  | cached cache => exact h.inv.files_eq

namespace Device

variable {file : String} {options : DeviceOptions} {host opened : Host} {device : Device}

/-- A device that was opened read-only, for whatever reason, changes no file, however it is used by
itself and through caches, in whatever way it ends, and whatever the host does. No block is written
to it, and on the way all that would have to write fails. -/
theorem sealed_of_openFile [Medium] (h : (openFile file options).run host = .ok device opened)
    (hr : options.readOnly = true ∨ host.access? file ≠ some .readWrite ∨
      ∃ header, device.container.envelope = .twoImg header ∧ header.locked = true) :
    (∀ mount after n, Used Medium.Any device opened mount after n →
      (∀ [Medium], mount.Sealed after) ∧ after.files = host.files) ∧
    ∀ [Medium], ∀ after n, Ended Medium.Any device opened after n → after.files = host.files := by
  have hstart : Guarded host.files 0 (device, opened) :=
    ⟨(readOnly_openFile_iff h).mpr hr, modified_of_openFile h,
      (files_openFile file options host).of_ok h, rfl⟩
  have hused {mount : Mount} {after : Host} {n : Nat}
      (hu : Used Medium.Any device opened mount after n) :
      mount.Upheld True (Guarded host.files) n after := (upholds_guarded host.files).used hstart hu
  refine ⟨fun mount after n hu => ⟨(hused hu).sealed, (hused hu).files_eq⟩, fun after n he => ?_⟩
  obtain ⟨last, before, hu, rfl⟩ := he.exists_dispose trivial
  exact files_dispose (hused hu)

/-- A mapped 2IMG image of one block that is locked and whose file could be written. -/
theorem sealed_of_openFile_locked :
    let header : Header.TwoImg :=
      { creator := Header.TwoImg.ownCreator, headerSize := 64, version := 1, format := .proDos
        flags := 0x80000000, blocks := 1, dataOffset := 64, dataLength := 512, commentOffset := 0
        commentLength := 0, creatorDataOffset := 0, creatorDataLength := 0 }
    let host : Host := ⟨[⟨"disk.2mg", header.toBytes.data ++ zeros 512, .readWrite⟩], #[]⟩
    ∃ device, (openFile "disk.2mg" { format := some .twoImg }).run host = .ok device host ∧
      device.storage.mapped = true ∧ device.storage.readOnly = false ∧
      (∀ mount after n, Used Medium.Any device host mount after n →
        (∀ [Medium], mount.Sealed after) ∧ after.files = host.files) ∧
      ∀ [Medium], ∀ after n, Ended Medium.Any device host after n → after.files = host.files := by
  intro header host
  have hfind : host.find? "disk.2mg" =
      some ⟨"disk.2mg", header.toBytes.data ++ zeros 512, .readWrite⟩ := rfl
  have hcontents : host.contents "disk.2mg" = header.toBytes.data ++ zeros 512 := by
    simp only [Host.contents, hfind]
  have hsize : (host.contents "disk.2mg").size = 576 := by
    rw [hcontents, ByteArray.size_append, Bytes.size_data, size_zeros]
  have hstorage : Storage.openFile host "disk.2mg" .mapped false =
      .ok (.ofSize "disk.2mg" 576 .mapped false) := by
    rw [Storage.openFile_of_access? (by simp only [Host.access?, hfind, Option.map_some]), hsize]
  have hhead : Container.readHead .twoImg 64 (.ofSize "disk.2mg" 576 .mapped false) host =
      .ok header.toBytes := by
    refine (Image.readHead_eq (Storage.openFile_backed hstorage) (by decide) .twoImg).trans ?_
    refine congrArg Except.ok (Bytes.ext_byte fun i hi => ?_)
    rw [Bytes.byte_ofSlice, if_pos hi, Nat.zero_add]
    change byteAt (host.contents "disk.2mg") i = _
    rw [hcontents, byteAt_append, if_pos (by rwa [Bytes.size_data])]
    rfl
  have hcontainer : Container.openTwoImg (.ofSize "disk.2mg" 576 .mapped false) host .bestEffort =
      .ok ⟨.twoImg header, .sequential ⟨64, 1⟩⟩ := by
    -- The numbers of the header are 32-bit words, so each is computed once and used as a natural
    -- number from here on.
    have hlength : Container.twoImgDataLength header = 512 := by decide
    have hoffset : header.dataOffset.toNat = 64 := by decide
    have hheaderSize : header.headerSize.toNat = 64 := by decide
    have hlayout : Container.twoImgLayout header .bestEffort = .ok (.sequential ⟨64, 1⟩) := by
      have hformat : header.format = .proDos := rfl
      have hblocks : header.blocks.toNat = 1 := by decide
      have hpos : header.blocks ≠ 0 := by decide
      simp only [Container.twoImgLayout, hformat, hlength, hoffset, hblocks, if_neg hpos]
      exact if_neg (by decide)
    have hle : ¬ (64 < 64 ∨ 64 + 512 > (Storage.ofSize "disk.2mg" 576 .mapped false).size) := by
      decide
    unfold Container.openTwoImg
    rw [hhead]
    simp only [bind, Except.bind, Header.TwoImg.parse_toBytes header (by decide), hlength, hoffset,
      hheaderSize, hlayout, if_neg hle]
    rfl
  have hopen : (openFile "disk.2mg" { format := some .twoImg }).run host =
      .ok ⟨.ofSize "disk.2mg" 576 .mapped false, ⟨.twoImg header, .sequential ⟨64, 1⟩⟩, true, false⟩
        host := by
    have hask : (ask fun host => Storage.openFile host "disk.2mg" .mapped false :
        Action Host Storage).run host = .ok (.ofSize "disk.2mg" 576 .mapped false) host :=
      run_ask_of_ok hstorage
    have hrun : (Container.openFile (.ofSize "disk.2mg" 576 .mapped false) "disk.2mg"
        { format := some .twoImg }).run host = .ok ⟨.twoImg header, .sequential ⟨64, 1⟩⟩ host :=
      run_ask_of_ok hcontainer
    exact (run_bind_of_ok hask _).trans (run_bind_of_ok hrun _)
  exact ⟨_, hopen, rfl, rfl, sealed_of_openFile hopen (.inr (.inr ⟨header, rfl, by decide⟩))⟩

end Device

end Diskette
