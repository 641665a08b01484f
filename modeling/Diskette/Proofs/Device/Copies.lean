import Diskette.Proofs.Agree
import Diskette.Proofs.Device.Plain

/-!
# Copies of an image

What becomes of opening an image depends on the bytes of its file, on the access that it grants and
on the format that its name suggests. So a copy is opened with the same container, whatever it is
reached through.

* `Host.Copied`: a file that is a copy of another.
* `Device.run_openFile_copied`: a copy is opened as the other file was.
* `Device.plain_of_openFile`: an image with one block after the other is a plain one.
-/

namespace Diskette

open Diskette.Action Header

/-- A file is a copy of another, and its name suggests the same format. -/
structure Host.Copied (host : Host) (file : String) (host' : Host) (file' : String) : Prop where
  contents_eq : host'.contents file' = host.contents file
  access_eq : host'.access? file' = host.access? file
  format_eq : Format.ofPath file' = Format.ofPath file

theorem Storage.openFile_copied {host host' : Host} {file file' : String} {backing : Backing}
    {readOnly : Bool} {storage : Storage} (hc : host.Copied file host' file')
    (h : Storage.openFile host file backing readOnly = .ok storage) (backing' : Backing) :
    Storage.openFile host' file' backing' readOnly =
      .ok (.ofSize file' storage.size backing' storage.readOnly) := by
  have hopened {readOnly : Bool}
      (h : (host.checkReadable file >>= fun _ => ofFile host file backing readOnly) =
        .ok storage) : (host.checkReadable file >>= fun _ => ofFile host' file' backing' readOnly) =
          .ok (.ofSize file' storage.size backing' storage.readOnly) := by
    simp only [ofFile_eq, hc.contents_eq] at h ⊢
    cases hr : host.checkReadable file with
    | error e =>
      rw [hr] at h
      cases h
    | ok _ =>
      rw [hr] at h
      cases h
      rfl
  unfold Storage.openFile at h ⊢
  rw [Host.checkWritable_congr hc.access_eq, Host.checkReadable_congr hc.access_eq]
  cases readOnly with
  | true => exact hopened h
  | false =>
    simp only [Bool.false_eq_true, if_false] at h ⊢
    split at h
    · exact hopened h
    · exact hopened h
    · cases h

namespace Container

/-! ## Containers -/

variable {storage storage' : Storage} {host host' : Host}

/-- The bytes of two storages on two hosts are the same, and none of them are missing. -/
structure SameBytes (storage storage' : Storage) (host host' : Host) : Prop where
  size_eq : storage'.size = storage.size
  contents_eq : host'.contents storage'.file = host.contents storage.file
  size_le : storage.size ≤ (host.contents storage.file).size

theorem SameBytes.read_eq (h : SameBytes storage storage' host host') :
    storage'.read host' = storage.read host := by
  funext offset len
  unfold Storage.read Storage.checkRange
  rw [h.size_eq, h.contents_eq]
  by_cases hle : offset + len ≤ storage.size
  · have hthere : len = 0 ∨ offset + len ≤ (host.contents storage.file).size :=
      .inr (Nat.le_trans hle h.size_le)
    rw [Storage.checkPresent_eq_ok_iff.mpr hthere,
      Storage.checkPresent_eq_ok_iff.mpr (h.contents_eq ▸ hthere)]
  · rw [if_neg hle]
    rfl

theorem SameBytes.readHead_eq (h : SameBytes storage storage' host host') (format : Format)
    (n : Nat) : readHead format n storage' host' = readHead format n storage host := by
  unfold readHead
  rw [h.read_eq, h.size_eq]

theorem SameBytes.openTwoImg_eq (h : SameBytes storage storage' host host')
    (policy : Gcr.SyncPolicy) : openTwoImg storage' host' policy = openTwoImg storage host policy := by
  unfold openTwoImg
  rw [h.readHead_eq, h.size_eq]

theorem SameBytes.openDavex_eq (h : SameBytes storage storage' host host') :
    openDavex storage' host' = openDavex storage host := by
  unfold openDavex
  rw [h.readHead_eq, h.size_eq]

theorem SameBytes.detectFormat_eq (h : SameBytes storage storage' host host') {path path' : String}
    (hp : Format.ofPath path' = Format.ofPath path) :
    detectFormat storage' host' path' = detectFormat storage host path := by
  unfold detectFormat
  rw [h.read_eq, h.size_eq, hp]

theorem parallel_openDiskCopy (hsize : storage'.size = storage.size) :
    Parallel (SameBytes storage storage') (openDiskCopy storage) (openDiskCopy storage') := by
  refine (parallel_ask fun _ _ h => h.readHead_eq ..).bind fun head => ?_
  rw [hsize]
  refine (parallel_ofExcept _).bind fun header => ?_
  refine (parallel_ask fun _ _ h => by rw [h.read_eq]).bind fun data => ?_
  dsimp only
  split
  · exact (parallel_modify fun _ _ h => ⟨h.size_eq, h.contents_eq, h.size_le⟩).bind fun _ =>
      parallel_pure _
  · exact parallel_pure _

theorem parallel_openAs (hsize : storage'.size = storage.size) (format : Format)
    (policy : Gcr.SyncPolicy) :
    Parallel (SameBytes storage storage') (openAs format storage policy)
      (openAs format storage' policy) := by
  cases format with
  | proDosOrder =>
    unfold openAs
    rw [hsize]
    exact parallel_ofExcept _
  | dosOrder =>
    unfold openAs
    rw [hsize]
    exact parallel_ofExcept _
  | nibble =>
    unfold openAs
    rw [hsize]
    exact parallel_ofExcept _
  | twoImg => exact parallel_ask fun _ _ h => h.openTwoImg_eq policy
  | diskCopy42 => exact parallel_openDiskCopy hsize
  | davex => exact parallel_ask fun _ _ h => h.openDavex_eq

/-- The same bytes are opened as the same container. -/
theorem parallel_openFile (hsize : storage'.size = storage.size) {path path' : String}
    {options options' : DeviceOptions} (hp : Format.ofPath path' = Format.ofPath path)
    (hf : options'.format = options.format) (hn : options'.nibble = options.nibble) :
    Parallel (SameBytes storage storage') (openFile storage path options)
      (openFile storage' path' options') := by
  unfold openFile
  rw [hf, hn]
  cases options.format with
  | some format => exact parallel_openAs hsize format _
  | none =>
    exact (parallel_ask fun _ _ h => h.detectFormat_eq hp).bind fun format =>
      parallel_openAs hsize format _

end Container

namespace Device

variable {file file' : String} {options : DeviceOptions} {host host' after : Host}
  {device : Device} {layout : Layout.Sequential}

/-- A copy is opened as the other file was, whatever it is reached through. -/
theorem run_openFile_copied (hc : host.Copied file host' file')
    (h : (openFile file options).run host = .ok device after) (backing : Backing)
    (cache : CacheOptions) :
    ∃ device' after',
      (openFile file' { options with backing, cache }).run host' = .ok device' after' ∧
        device'.container = device.container ∧ device'.readOnly = device.readOnly := by
  obtain ⟨storage, container, hstorage, hcontainer, rfl⟩ := exists_of_openFile h
  have hcopied := Storage.openFile_copied hc hstorage backing
  have hfile : storage.file = file := by
    obtain ⟨-, _, rfl⟩ := Storage.exists_of_openFile hstorage
    rfl
  have hsame : Container.SameBytes storage
      (.ofSize file' storage.size backing storage.readOnly) host host' :=
    ⟨rfl, hc.contents_eq.trans (by rw [hfile]), (Storage.openFile_backed hstorage).size_le⟩
  have hparallel : Parallel _ (Container.openFile storage file options)
      (Container.openFile _ file' { options with backing, cache }) :=
    Container.parallel_openFile hsame.size_eq hc.format_eq rfl rfl
  obtain ⟨houtcome, -⟩ := agree_iff.mp (hparallel hsame)
  rw [outcome_of_run_eq_ok hcontainer] at houtcome
  have hask : (ask fun host => Storage.openFile host file' backing options.readOnly :
      Action Host Storage).run host' =
        .ok (.ofSize file' storage.size backing storage.readOnly) host' := run_ask_of_ok hcopied
  exact ⟨_, _, (run_bind_of_ok hask _).trans (run_bind_of_ok (run_eq_ok_of_outcome houtcome) _),
    rfl, rfl⟩

/-- An image with one block after the other is a plain one when it was just opened. -/
theorem plain_of_openFile (h : (openFile file options).run host = .ok device after)
    (hl : device.container.layout = .sequential layout) :
    Plain layout (device, after) ∧ contents (device, after) = host.contents file := by
  obtain ⟨storage, container, hstorage, hcontainer, rfl⟩ := exists_of_openFile h
  obtain ⟨hkept, haccepted⟩ := (Container.openFile_ends storage host file options).of_ok hcontainer
  have haccepted := haccepted container rfl
  refine ⟨⟨⟨hl, haccepted.toFits, (Storage.openFile_backed hstorage).kept hkept,
    fun hro => (Bool.or_eq_false_iff.mp hro).1⟩, haccepted.not_stale, nofun⟩, ?_⟩
  obtain ⟨-, _, rfl⟩ := Storage.exists_of_openFile hstorage
  exact hkept.contents_self

/-- Such an image can be mapped. -/
theorem supportsMapping_of_openFile (h : (openFile file options).run host = .ok device after)
    (hl : device.container.layout = .sequential layout) (hb : options.backing = .mapped) :
    device.supportsMapping = true := by
  obtain ⟨hplain, -⟩ := plain_of_openFile h hl
  obtain ⟨storage, container, hstorage, hcontainer, rfl⟩ := exists_of_openFile h
  obtain ⟨-, haccepted⟩ := (Container.openFile_ends storage host file options).of_ok hcontainer
  have hpos : 0 < layout.blocks := (haccepted container rfl).blocks_pos hl
  have hsize := hplain.le_size hpos
  have hmapped : storage.mapped = true := by
    obtain ⟨-, _, rfl⟩ := Storage.exists_of_openFile hstorage
    exact decide_eq_true ⟨hb, Nat.lt_of_lt_of_le (Nat.succ_pos _) hsize⟩
  have hoffset : container.layout.blockOffset? 0 = some (layout.offset 0) :=
    Layout.blockOffset?_eq_some_iff.mpr ⟨layout, hl, hpos, rfl⟩
  exact Bool.and_eq_true_iff.mpr ⟨hmapped, by rw [Container.blockOffset?, hoffset]; rfl⟩

end Device

end Diskette
