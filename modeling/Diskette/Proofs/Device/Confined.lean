import Diskette.Proofs.Device.Beside

/-!
# Accesses that fail touch one file too

Another program may cut the file of a device, or the host may fail, and then its accesses fail and
nothing is known of its blocks. Whatever comes of an access to a device, it touches no file but that
of the device, and neither does what is done with it through caches.

* `Host.others`: the files but one.
* `Device.apart_create`: an image that is not created is no harm to other files.
* `Device.upholds_confined`: no access to a device touches the others.
* `Cache.confined`, `Cache.confined_closeCache`: nothing that is done with a cache does.
-/

namespace Diskette

open Diskette.Action

/-! ## Files -/

namespace Host

variable {before after : Host} {file : String}

/-- The files but one. -/
def others (file : String) (host : Host) (other : String) : Option File :=
  if other = file then none else host.find? other

theorem others_congr (h : after.files = before.files) (file : String) :
    after.others file = before.others file := by
  funext other
  unfold others find?
  rw [h]

private theorem others_withChanged (host : Host) (file : String) (change : ByteArray → ByteArray) :
    { host with files := changeContents file change host.files }.others file =
      host.others file := by
  funext other
  unfold others
  split
  · rfl
  · next hne => exact host.find?_withChanged_of_ne change hne

theorem others_writeAt (host : Host) (file : String) (offset : Nat) (data : ByteArray) :
    (host.writeAt file offset data).others file = host.others file := others_withChanged ..

theorem others_resize (host : Host) (file : String) (size : Nat) :
    (host.resize file size).others file = host.others file := others_withChanged ..

theorem others_replace (host : Host) (file : String) (data : ByteArray) :
    (host.replace file data).others file = host.others file := by
  funext other
  unfold others
  split
  · rfl
  · next hne => exact host.find?_replace_of_ne data hne

theorem apart_of_others_eq (h : after.others file = before.others file) :
    Apart file before after := by
  intro other hne
  have heq := congrFun h other
  unfold others at heq
  rwa [if_neg hne, if_neg hne] at heq

end Host

variable {α σ : Type} {file : String}

/-- What leaves all files alone leaves the others alone. -/
theorem retains_others_of_files {act : Action (σ × Host) α}
    (h : Retains (fun state : σ × Host => state.2.files) act) :
    Retains (fun state : σ × Host => state.2.others file) act := fun state =>
  (h state).mono fun _ _ heq => Host.others_congr heq file

namespace Storage

private theorem retains_others_putMapped (storage : Storage) (offset : Nat) (data : ByteArray) :
    Retains (Host.others storage.file) (storage.putMapped offset data) :=
  (retains_ask _).bind fun _ => retains_modify fun host =>
    host.others_writeAt storage.file offset data

theorem retains_others_write [Medium] (storage : Storage) (offset : Nat) (data : ByteArray) :
    Retains (Host.others storage.file) (storage.write offset data) := by
  refine (retains_ofExcept _).bind fun _ => ?_
  split
  · exact storage.retains_others_putMapped offset data
  · intro host
    unfold Ends EStateM.run writeAll
    cases Medium.write host storage.file offset data <;> exact host.others_writeAt ..

theorem retains_others_writeMapped (storage : Storage) (offset : Nat) (data : ByteArray) :
    Retains (Host.others storage.file) (storage.writeMapped offset data) := by
  refine (retains_ofExcept _).bind fun _ => ?_
  split
  · exact (storage.retains_others_putMapped offset data).bind fun _ => retains_pure _
  · exact retains_pure _

/-- What is made is the storage of that file. -/
theorem createFile_file [Medium] (file : String) (size : Nat) (backing : Backing) (host : Host) :
    Ends (createFile file size backing) host fun r _ => ∀ storage, r = .ok storage →
      storage.file = file := by
  cases hfile : host.checkCreatable file with
  | error e =>
    have hrefused : (ask fun host => host.checkCreatable file : Action Host Unit).run host =
        .error e host := run_ask_of_error hfile
    exact (ends_of_run_eq_error (run_bind_of_error hrefused _)).mpr nofun
  | ok _ =>
    rcases Device.createFile_cases hfile size backing with hrun | ⟨_, _, -, -, hrun⟩
    · refine (ends_of_run_eq_ok hrun).mpr fun storage he => ?_
      cases he
      rfl
    · exact (ends_of_run_eq_error hrun).mpr nofun

/-- Making a file touches no other one, even if it comes to nothing. -/
theorem retains_others_createFile [Medium] (file : String) (size : Nat) (backing : Backing) :
    Retains (Host.others file) (createFile file size backing) := by
  refine (retains_ask _).bind fun _ => ?_
  have hempty : Retains (Host.others file) (modify fun host => host.replace file .empty) :=
    retains_modify fun host => host.others_replace file .empty
  have hresize : Retains (Host.others file) (modify fun host => host.resize file size) :=
    retains_modify fun host => host.others_resize file size
  exact hempty.bind fun _ => (retains_ask _).bind fun _ => hresize.bind fun _ => retains_ask _

end Storage

/-! ## Containers -/

namespace Layout

private theorem retains_others_writeTrack [Medium] (storage : Storage) (track : Nat)
    (bytes : ByteArray) :
    Retains (fun state : Nibble × Host => state.2.others storage.file)
      (Nibble.writeTrack storage track bytes) := by
  rintro ⟨layout, host⟩
  have hwrite := storage.retains_others_write (layout.trackOffset track) bytes host
  unfold Ends EStateM.run at hwrite
  unfold Ends EStateM.run Nibble.writeTrack
  dsimp only
  cases hr : storage.write (layout.trackOffset track) bytes host with
  | ok a after => rw [hr] at hwrite; exact hwrite
  | error e after => rw [hr] at hwrite; exact hwrite

theorem retains_others_readBlock (storage : Storage) (block : Nat) :
    Retains (fun state : Layout × Host => state.2.others file) (readBlock storage block) :=
  retains_readBlock (fun block => retains_others_of_files (Nibble.files_readBlock storage block))
    block

theorem retains_others_writeBlock [Medium] (storage : Storage) (block : Nat) (data : Block) :
    Retains (fun state : Layout × Host => state.2.others storage.file)
      (writeBlock storage block data) :=
  retains_writeBlock
    (Nibble.retains_writeBlock (retains_others_of_files (Nibble.files_ensureIndex storage))
      (retains_others_writeTrack storage) block data)
    fun _ => storage.retains_others_write

end Layout

namespace Container

theorem retains_others_finish [Medium] (storage : Storage) :
    Retains (fun state : Container × Host => state.2.others storage.file) (finish storage) := by
  rintro ⟨⟨envelope, layout⟩, host⟩
  by_cases hstale : ∃ header, envelope = .diskCopy header true
  · obtain ⟨header, rfl⟩ := hstale
    have hrefresh : Retains (Host.others storage.file) (refreshChecksum storage header) :=
      (retains_ask _).bind fun _ => (storage.retains_others_write _ _).bind fun _ => retains_pure _
    have hends := hrefresh host
    unfold Ends EStateM.run at hends
    unfold Ends EStateM.run finish
    dsimp only
    cases hr : refreshChecksum storage header host with
    | ok _ after => rw [hr] at hends; exact hends
    | error e after => rw [hr] at hends; exact hends
  · have hrun : (finish storage).run (⟨envelope, layout⟩, host) =
        .ok () (⟨envelope, layout⟩, host) :=
      run_finish_of_not_stale storage host fun header he => hstale ⟨header, he⟩
    exact (ends_of_run_eq_ok hrun).mpr rfl

private theorem retains_others_formatFrom [Medium] (storage : Storage) (volume : UInt8)
    (count : Nat) : ∀ number, Retains (Host.others storage.file)
      (Layout.Nibble.formatFrom storage volume count number) := by
  induction count with
  | zero => exact fun _ => retains_pure ()
  | succ count ih =>
    exact fun number => (storage.retains_others_write _ _).bind fun _ => ih (number + 1)

theorem retains_others_create [Medium] (format : Format) (storage : Storage) (blocks : Nat)
    (options : NibbleOptions) :
    Retains (Host.others storage.file) (create format storage blocks options) := by
  cases format with
  | proDosOrder => exact retains_pure _
  | dosOrder => exact retains_pure _
  | nibble =>
    have hlayout : Retains (Host.others storage.file)
        (Layout.Nibble.create storage blocks options.volume options.syncPolicy) :=
      (retains_ofExcept _).bind fun _ =>
        (retains_others_formatFrom storage options.volume _ 0).bind fun _ => retains_pure _
    exact hlayout.bind fun _ => retains_pure _
  | twoImg =>
    exact (retains_ofExcept _).bind fun _ => (storage.retains_others_write _ _).bind fun _ =>
      retains_pure _
  | diskCopy42 =>
    show Retains _ (createDiskCopy storage blocks)
    unfold createDiskCopy
    split
    · exact (storage.retains_others_write _ _).bind fun _ => retains_pure _
    · exact retains_throw _
  | davex =>
    show Retains _ (createDavex storage blocks)
    unfold createDavex
    split
    · exact (storage.retains_others_write _ _).bind fun _ => retains_pure _
    · exact retains_throw _

end Container

/-! ## Devices -/

namespace Device

/-- The storage, and the files but that of the device. -/
def outside (state : Device × Host) : Storage × (String → Option File) :=
  (state.1.storage, state.2.others state.1.storage.file)

/-- What an action on the container of a device may do. -/
private theorem retains_outside {act : Storage → Action (Container × Host) α}
    (h : ∀ storage, Retains (fun state : Container × Host => state.2.others storage.file)
      (act storage)) : Retains outside (onContainer act) :=
  retains_onContainer fun storage _ _ state => (h storage state).mono fun _ _ heq =>
    congrArg (Prod.mk storage) heq

theorem retains_outside_read (block : Nat) : Retains outside (read block) :=
  (retains_ask _).bind fun _ => retains_outside fun storage =>
    Container.retains_onLayout fun _ => Layout.retains_others_readBlock storage block

theorem retains_outside_write [Medium] (block : Nat) (data : Block) :
    Retains outside (write block data) := by
  have hwrite (storage : Storage) :
      Retains (fun state : Container × Host => state.2.others storage.file)
        (Container.writeBlock storage block data) := by
    refine (Container.retains_onLayout fun _ => ?_).bind fun _ => retains_modify fun _ => rfl
    exact Layout.retains_others_writeBlock storage block data
  have hmodified : Retains outside (setModified true) := retains_modify fun _ => rfl
  exact (retains_ask _).bind fun _ => (retains_outside hwrite).bind fun _ => hmodified

theorem retains_outside_flush [Medium] : Retains outside flush :=
  retains_flush (fun storage _ => (Container.retains_others_finish storage).comp (Prod.mk storage))
    fun _ _ _ _ => rfl

theorem retains_outside_updateMapped (block : Nat) (change : Block → Block) :
    Retains outside (updateMapped block change) := by
  refine (retains_ask _).bind fun offset => ?_
  have hnoted : Retains outside (modify fun state => (state.1.noteModified, state.2)) :=
    retains_modify fun _ => rfl
  refine hnoted.bind fun _ => (retains_ask _).bind fun data => retains_outside fun storage => ?_
  rintro ⟨container, host⟩
  have hwrite : Retains (Host.others storage.file)
      (do let _ ← storage.writeMapped offset (change data).data) :=
    (storage.retains_others_writeMapped offset (change data).data).bind fun _ => retains_pure _
  exact ends_onSecond.mpr (hwrite host)

/-- Every access to a device leaves it at its file, and the others alone. -/
theorem upholds_confined (start : Device × Host) :
    Upholds Medium.Any False fun _ state => outside state = outside start where
  readOnly_eq hp _ := hp.elim
  warn h _ := h
  read h block := (retains_outside_read block _).mono fun _ _ heq => heq.trans h
  write _ h block data := (retains_outside_write block data _).mono fun _ _ heq => heq.trans h
  flush _ h := (retains_outside_flush _).mono fun _ _ heq => heq.trans h
  update h _ block change :=
    (retains_outside_updateMapped block change _).mono fun _ _ heq => heq.trans h

theorem apart_of_outside_eq {device device' : Device} {host host' : Host}
    (h : outside (device', host') = outside (device, host)) :
    device'.storage = device.storage ∧ Host.Apart device.storage.file host host' := by
  obtain ⟨hstorage, hothers⟩ := Prod.mk.inj h
  dsimp only at hstorage hothers
  rw [hstorage] at hothers
  exact ⟨hstorage, Host.apart_of_others_eq hothers⟩

/-- Creating an image, even when it fails, touches no other file. -/
theorem apart_create [Medium] (file : String) (format : Format) (blocks : Nat)
    (options : DeviceOptions) (host : Host) :
    Ends (create file format blocks options) host fun _ after => Host.Apart file host after := by
  have hothers : Retains (Host.others file) (create file format blocks options) := by
    refine (retains_ofExcept _).bind fun size host => ?_
    have hmade := (Storage.retains_others_createFile file size options.backing host).and
      (Storage.createFile_file file size options.backing host)
    refine hmade.bind (fun storage made h => ?_) fun _ _ h => h.1
    obtain ⟨hmade, hfile⟩ := h
    obtain rfl := hfile storage rfl
    exact ((Container.retains_others_create format storage blocks options.nibble).bind
      (fun _ => retains_pure _) made).mono fun _ _ heq => heq.trans hmade
  exact (hothers host).mono fun _ _ => Host.apart_of_others_eq

/-- The end of a device touches no other file. -/
theorem apart_dispose [Medium] (device : Device) (host : Host) :
    Host.Apart device.storage.file host (device.dispose host) := by
  have hflush := retains_outside_flush (device, host)
  unfold Ends EStateM.run at hflush
  unfold dispose
  dsimp only
  cases hr : flush (device, host) with
  | ok _ after =>
    rw [hr] at hflush
    exact (apart_of_outside_eq hflush).2
  | error e after =>
    rw [hr] at hflush
    exact (apart_of_outside_eq hflush).2.trans (Host.apart_of_files_eq _ rfl)

end Device

/-! ## Caches -/

namespace Cache

variable {cache : Cache} {host : Host}

open Device (upholds_confined outside apart_of_outside_eq)

/-- What is done with a cache touches no file but that of its device. -/
theorem confined [Medium] (hgrounded : cache.Grounded)
    {act : ∀ (κ : Type) [BlockCache κ], Action κ α}
    (hact : Uniform act) :
    Ends (act (Cache × Host)) (cache, host) fun _ after =>
      after.1.device.storage = cache.device.storage ∧ after.1.Grounded ∧
        Host.Apart cache.device.storage.file host after.2 := by
  have hstart : Upheld False (fun _ state => outside state = outside (cache.device, host)) 0
      (cache, host) := ⟨rfl, hgrounded, False.elim⟩
  have hafter := (upholds_confined (cache.device, host)).run trivial hact hstart
  obtain ⟨hstorage, hapart⟩ := apart_of_outside_eq hafter.inv
  exact ends_iff.mpr ⟨hstorage, hafter.grounded, hapart⟩

/-- The end of a cache touches no other file either. -/
theorem apart_dispose [Medium] (hgrounded : cache.Grounded) (host : Host) :
    Host.Apart cache.device.storage.file host (cache.dispose host) := by
  have hstart : Upheld False (fun _ state => outside state = outside (cache.device, host)) 0
      (cache, host) := ⟨rfl, hgrounded, False.elim⟩
  obtain ⟨hstorage, hapart⟩ :=
    apart_of_outside_eq ((upholds_confined (cache.device, host)).detach trivial hstart)
  rw [dispose_eq_detach]
  exact hapart.trans (hstorage ▸ Device.apart_dispose _ _)

/-- Nor does closing it. -/
theorem confined_closeCache [Medium] (hgrounded : cache.Grounded) (host : Host) :
    Ends (Session.closeCache cache) host fun _ after =>
      Host.Apart cache.device.storage.file host after := by
  have hsync : Ends BlockCache.sync (cache, host) _ := confined hgrounded uniform_sync
  unfold Ends EStateM.run at hsync
  unfold Ends EStateM.run Session.closeCache
  dsimp only
  cases hr : BlockCache.sync (cache, host) with
  | ok _ after =>
    rw [hr] at hsync
    obtain ⟨hstorage, hgrounded', hapart⟩ := hsync
    exact hapart.trans (hstorage ▸ apart_dispose hgrounded' after.2)
  | error e after =>
    rw [hr] at hsync
    obtain ⟨hstorage, hgrounded', hapart⟩ := hsync
    exact hapart.trans (hstorage ▸ apart_dispose hgrounded' after.2)

end Cache

end Diskette
