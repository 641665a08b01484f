import Diskette.Proofs.Device.Image
import Diskette.Proofs.Media

/-!
# Created devices

Creating an image succeeds for every number of blocks that the format takes, and the device shows
zeros.

* `Fresh`: what is known of a device that was just created.
* `createContainer_laysOut`: a storage of the right size is laid out.
* `run_create`: creating succeeds.
* `create_cases`, `eq_or_outage_of_create`: how creating ends, for whatever is asked and whatever the
  host does.
* `exists_of_create`, `holds_of_create`, `fresh_of_create`: whatever was created holds zeros.
-/

namespace Diskette.Device

open Diskette.Action Header

variable {format : Format} {blocks size : Nat} {storage : Storage} {host after : Host} {file : String}

/-- What is known of a device that was just created with `blocks` blocks. -/
structure Fresh (file : String) (format : Format) (blocks : Nat) (state : Device × Host) : Prop where
  file_eq : state.1.storage.file = file
  size_eq : state.1.storage.size = (state.2.contents file).size
  readOnly_eq : state.1.readOnly = false
  format_eq : state.1.format = format
  layout_eq : ∃ policy, state.1.container.layout = format.layout blocks policy
  header_le : state.1.container.headerSize ≤ state.1.container.layout.base
  access_eq : state.2.access? file = some .readWrite
  image : Image format blocks (state.2.contents file) fun _ => Bytes.zero 512
  holds : Holds state fun _ => Bytes.zero 512

/-- Data of zeros holds blocks of zeros. -/
theorem holds_zeros {layout : Layout.Sequential} {data : ByteArray}
    (hfits : layout.base + layout.blocks * 512 ≤ size)
    (hzero : ∀ k, layout.base ≤ k → byteAt data k = 0) :
    layout.Holds size data fun _ => Bytes.zero 512 :=
  ⟨hfits, fun block _ i _ => by
    rw [hzero _ (layout.base_le_position block i), Bytes.byte_zero]⟩

/-- A file of zeros with a header written over its start. -/
structure Headed (host : Host) (storage : Storage) (n : Nat) (head : Bytes n) (after : Host) :
    Prop where
  kept : Host.Kept storage.file (fun k => k < n) host after
  head_eq {i : Nat} (h : i < n) : byteAt (after.contents storage.file) i = head.byte i
  zero {k : Nat} (h : n ≤ k) : byteAt (after.contents storage.file) k = 0

/-- The host failed, and it was asked to do something for the file of that name. -/
def Failed [medium : Medium] {α : Type} (file : String) (act : Action Host α) (host : Host) : Prop :=
  ∃ e after, e.IsOutage ∧ ¬ medium.Serves file ∧ act.run host = .error e after

theorem Failed.bind [Medium] {α β : Type} {act : Action Host α} (h : Failed file act host)
    (f : α → Action Host β) : Failed file (act >>= f) host := by
  obtain ⟨e, after, he, hserves, hrun⟩ := h
  exact ⟨e, after, he, hserves, run_bind_of_error hrun f⟩

theorem failed_of_broken [medium : Medium] {α : Type} {offset : Nat} {data : ByteArray}
    {e : DiskError}
    {act : Action Host α} {broken : Host} (he : e.IsOutage)
    (h : storage.Broken host offset data broken) (hrun : act.run host = .error e after) :
    Failed storage.file act host := ⟨e, after, he, h.not_serves, hrun⟩

theorem not_failed {α : Type} {act : Action Host α} : ¬ Failed file act host := by
  rintro ⟨_, _, -, hserves, -⟩
  exact hserves (Medium.serves_reliable file)

/-- A header that fits is written, unless the storage must not be or the host fails. -/
theorem write_head_cases [Medium] {n : Nat} (head : Bytes n) (hle : n ≤ storage.size)
    (hreach : storage.Reaches host storage.size) :
    (∃ after, (storage.write 0 head.data).run host = .ok () after ∧
        (storage.Backed host → (∀ k, byteAt (host.contents storage.file) k = 0) →
          Headed host storage n head after)) ∨
      (storage.readOnly = true ∧ (storage.write 0 head.data).run host = .error .readOnly host) ∨
      Failed storage.file (storage.write 0 head.data) host := by
  have hle' : 0 + head.data.size ≤ storage.size := by
    rw [head.size_data]
    omega
  cases hw : storage.readOnly with
  | true => exact .inr (.inl ⟨rfl, Storage.run_write_of_readOnly hw ..⟩)
  | false =>
    rcases Storage.run_write_cases hw hle' (hreach.mono hle') with hrun | ⟨e, _, he, hbroken, hrun⟩
    · refine .inl ⟨_, hrun, fun hs hzero => ⟨hs.kept_writeAt hle' fun k _ hk => ?_,
        fun {i} hi => ?_, fun {k} hk => ?_⟩⟩
      · rw [head.size_data] at hk
        omega
      · rw [hs.contents_writeAt, byteAt_overwrite, head.size_data, if_pos (by omega)]
        rfl
      · rw [hs.contents_writeAt, byteAt_overwrite, head.size_data, if_neg (by omega), hzero]
    · exact .inr (.inr (failed_of_broken he hbroken hrun))

theorem run_write_head {n : Nat} (head : Bytes n) (hs : storage.Backed host)
    (hw : storage.readOnly = false) (hle : n ≤ storage.size)
    (hzero : ∀ k, byteAt (host.contents storage.file) k = 0) :
    ∃ after, (storage.write 0 head.data).run host = .ok () after ∧
      Headed host storage n head after := by
  rcases write_head_cases head hle (hs.reaches (Nat.le_refl _)) with
    ⟨after, hrun, hheaded⟩ | ⟨hro, -⟩ | hfailed
  · exact ⟨after, hrun, hheaded hs hzero⟩
  · rw [hw] at hro
    cases hro
  · exact absurd hfailed not_failed

/-- Tracks are written until the host fails. -/
theorem formatFrom_cases [Medium] (hw : storage.readOnly = false) (volume : UInt8) (count : Nat) :
    ∀ {number : Nat} {host : Host}, (number + count) * 6656 ≤ storage.size →
      storage.Reaches host storage.size →
      (∃ after, (Layout.Nibble.formatFrom storage volume count number).run host = .ok () after) ∨
        Failed storage.file (Layout.Nibble.formatFrom storage volume count number) host := by
  induction count with
  | zero => exact fun _ _ => .inl ⟨_, rfl⟩
  | succ count ih =>
    intro number host hle hreach
    have hrest : (number + 1 + count) * 6656 ≤ storage.size := by
      rwa [Nat.add_right_comm, Nat.add_assoc]
    have hsize : (Gcr.Track.formatted volume (UInt8.ofNat number)).size = 6656 :=
      (Gcr.Track.formatted_formatted volume _).size_eq
    have hfirst : number * 6656 + (Gcr.Track.formatted volume (UInt8.ofNat number)).size ≤
        storage.size := by
      rw [hsize, ← Nat.succ_mul]
      exact Nat.le_trans (Nat.mul_le_mul_right _ (Nat.le_add_right _ _)) hrest
    rcases Storage.run_write_cases hw hfirst (hreach.mono hfirst) with
      hrun | ⟨e, _, he, hbroken, hrun⟩
    · rcases ih hrest (hreach.writeAt _ _) with ⟨after, hrest⟩ | ⟨e, after, he, hserves, hrest⟩
      · exact .inl ⟨after, (run_bind_of_ok hrun _).trans hrest⟩
      · exact .inr ⟨e, after, he, hserves, (run_bind_of_ok hrun _).trans hrest⟩
    · exact .inr ((failed_of_broken he hbroken hrun).bind _)

/-- What creating a container in a storage of zeros comes to. -/
structure Lays (format : Format) (blocks : Nat) (policy : Gcr.SyncPolicy) (storage : Storage)
    (before after : Host) (container : Container) : Prop where
  format_eq : container.format = format
  layout_eq : container.layout = format.layout blocks policy
  header_le : container.headerSize ≤ container.layout.base
  checksum (header : DiskCopy) (stale : Bool) (h : container.envelope = .diskCopy header stale) :
    84 ≤ container.layout.base ∧ 84 + header.dataSize ≤ storage.size
  kept : Host.Kept storage.file (fun _ => True) before after
  heads : format.Heads blocks (after.contents storage.file)
  holds : container.layout.Holds storage.size (after.contents storage.file) fun _ => Bytes.zero 512

/-- How laying out an image in a storage ends: the image is there, or the storage must not be written,
or the host fails. -/
def LaysOut [Medium] (format : Format) (blocks : Nat) (policy : Gcr.SyncPolicy) (storage : Storage)
    (host : Host) (act : Action Host Container) : Prop :=
  (∃ container after, act.run host = .ok container after ∧
      container.layout = format.layout blocks policy ∧
      (storage.Backed host → (∀ k, byteAt (host.contents storage.file) k = 0) →
        Lays format blocks policy storage host after container)) ∨
    (storage.readOnly = true ∧ act.run host = .error .readOnly host) ∨
    Failed storage.file act host

/-- The header is the only write, so its outcomes are those of the whole creation. -/
private theorem laysOut_of_head [Medium] {policy : Gcr.SyncPolicy} {n : Nat} {head : Bytes n}
    {container : Container} (hle : n ≤ storage.size) (hreach : storage.Reaches host storage.size)
    (hlayout : container.layout = format.layout blocks policy)
    (hlays : ∀ {after}, Headed host storage n head after →
      Lays format blocks policy storage host after container) :
    LaysOut format blocks policy storage host do
      storage.write 0 head.data
      return container := by
  rcases write_head_cases head hle hreach with ⟨after, hrun, hheaded⟩ | ⟨hw, hrun⟩ | hfailed
  · exact .inl ⟨container, after, run_bind_of_ok hrun _, hlayout, fun hs hzero =>
      hlays (hheaded hs hzero)⟩
  · exact .inr (.inl ⟨hw, run_bind_of_error hrun _⟩)
  · exact .inr (.inr (hfailed.bind _))

/-- Tracks are laid out one after the other. -/
private theorem laysOut_tracks [Medium] (hsize : Format.nibble.fileSize blocks = .ok storage.size)
    (options : NibbleOptions) (hreach : storage.Reaches host storage.size) :
    LaysOut .nibble blocks options.syncPolicy storage host
      (Container.create .nibble storage blocks options) := by
  have hne := Image.blocks_ne_zero hsize
  obtain ⟨heq, h8, h255⟩ := Image.nibble_size hsize
  have htracks : Layout.Nibble.tracksFor blocks = .ok (blocks / 8) := by
    unfold Layout.Nibble.tracksFor
    rw [if_neg (by omega), if_pos h255]
  cases hw : storage.readOnly with
  | true =>
    -- A storage that cannot be written is refused at the first track, with the host as it was.
    have hrun := Layout.Nibble.run_create_of_readOnly htracks (by omega) hw options.volume
      options.syncPolicy host
    exact .inr (.inl ⟨hw, run_bind_of_error hrun _⟩)
  | false =>
    have hle : (0 + blocks / 8) * 6656 ≤ storage.size := by
      rw [Nat.zero_add]
      exact Nat.le_of_eq heq.symm
    have hcount : (Action.ofExcept (Layout.Nibble.tracksFor blocks) : Action Host Nat).run host =
        .ok (blocks / 8) host := run_ofExcept_eq_ok_iff.mpr ⟨htracks, rfl⟩
    rcases formatFrom_cases hw options.volume (blocks / 8) hle hreach with
      ⟨after, hformat⟩ | ⟨e, after, he, hserves, hformat⟩
    · have hrun : (Layout.Nibble.create storage blocks options.volume options.syncPolicy).run host =
          .ok (.ofTracks 0 (blocks / 8) options.syncPolicy) after :=
        (run_bind_of_ok hcount _).trans (run_bind_of_ok hformat _)
      -- On the reliable medium the tracks are the same, and there they are known.
      obtain ⟨after', hrun', hcreated⟩ := Layout.Nibble.run_create_of_writable htracks
        (Nat.le_of_eq heq.symm) hw hreach options.volume options.syncPolicy
      have hsame := Layout.Nibble.alike_create storage blocks options.volume options.syncPolicy _ hrun
      rw [hrun'] at hsame
      cases hsame
      refine .inl ⟨⟨.bare, .nibble (.ofTracks 0 (blocks / 8) options.syncPolicy)⟩, after,
        run_bind_of_ok hrun _, rfl, fun hs _ => ?_⟩
      obtain ⟨hkept, hholds⟩ := hcreated hs
      exact ⟨rfl, rfl, Nat.zero_le _, nofun, hkept, trivial, hholds⟩
    · have hrun : (Layout.Nibble.create storage blocks options.volume options.syncPolicy).run host =
          .error e after := (run_bind_of_ok hcount _).trans (run_bind_of_error hformat _)
      exact .inr (.inr (Failed.bind ⟨e, after, he, hserves, hrun⟩ _))

/-- The layouts find nothing wrong with a storage of the size that was computed for the blocks. -/
theorem createContainer_laysOut [Medium] (hsize : format.fileSize blocks = .ok storage.size)
    (hlimit : format = .diskCopy42 → blocks * 512 < 0x100000000) (options : NibbleOptions)
    (hreach : storage.Reaches host storage.size) :
    LaysOut format blocks options.syncPolicy storage host
      (Container.create format storage blocks options) := by
  cases format with
  -- A layout without a header has nothing to write, so nothing can fail.
  | proDosOrder =>
    have heq := Image.proDosOrder_size hsize
    exact .inl ⟨_, host, rfl, rfl, fun _ hzero => ⟨rfl, rfl, Nat.zero_le _, nofun, .refl, trivial,
      holds_zeros (by simp only; omega) fun k _ => hzero k⟩⟩
  | dosOrder =>
    obtain ⟨heq, h8⟩ := Image.dosOrder_size hsize
    exact .inl ⟨_, host, rfl, rfl, fun _ hzero => ⟨rfl, rfl, Nat.zero_le _, nofun, .refl, trivial,
      h8, by simp only; omega, fun block _ i _ => by rw [hzero, Bytes.byte_zero]⟩⟩
  | nibble => exact laysOut_tracks hsize options hreach
  | twoImg =>
    obtain ⟨heq, header, hheader⟩ := Image.twoImg_size hsize
    obtain ⟨hoffset, -, -, hheaderSize, -⟩ := Image.ofBlocks_eq_ok hheader
    have hparse : (Action.ofExcept (TwoImg.ofBlocks blocks) : Action Host TwoImg).run host =
        .ok header host := run_ofExcept_eq_ok_iff.mpr ⟨hheader, rfl⟩
    unfold LaysOut Failed
    rw [Container.create, Container.createTwoImg, run_bind_of_ok hparse, hoffset]
    refine laysOut_of_head (by omega) hreach rfl fun hhead => ?_
    exact ⟨rfl, rfl, Nat.le_of_eq hheaderSize, nofun, hhead.kept.mono fun _ _ => trivial,
      ⟨header, hheader, fun i hi => hhead.head_eq hi⟩,
      holds_zeros (by simp only; omega) fun k hk => hhead.zero hk⟩
  | diskCopy42 =>
    have heq := Image.diskCopy_size hsize
    rw [Container.create, Container.createDiskCopy, if_pos (hlimit rfl)]
    refine laysOut_of_head (heq ▸ Nat.le_add_right ..) hreach rfl fun hhead => ?_
    refine ⟨rfl, rfl, Nat.le_refl _, ?_, hhead.kept.mono fun _ _ => trivial,
      fun i hi _ => hhead.head_eq hi,
      holds_zeros (Nat.le_of_eq heq.symm) fun k hk => hhead.zero hk⟩
    -- The container that comes back is made from the header just written, and not from the file.
    rintro header stale he
    cases he
    exact ⟨Nat.le_refl _, Nat.le_of_eq heq.symm⟩
  | davex =>
    obtain ⟨heq, hlt⟩ := Image.davex_size hsize
    rw [Container.create, Container.createDavex, if_pos hlt]
    refine laysOut_of_head (heq ▸ Nat.le_add_right ..) hreach rfl fun hhead => ?_
    exact ⟨rfl, rfl, Nat.le_refl _, nofun, hhead.kept.mono fun _ _ => trivial,
      fun i hi => hhead.head_eq hi,
      holds_zeros (Nat.le_of_eq heq.symm) fun k hk => hhead.zero hk⟩

/-! ## Files -/

theorem serve_cases [medium : Medium] (host : Host) (service : Service) (file : String) :
    Medium.serve host service file = .ok () ∨
      ¬ medium.Serves file ∧ ∃ message, Medium.serve host service file =
        .error (.file (.medium message)) := by
  unfold Medium.serve
  cases h : Medium.refuse host service file with
  | none => exact .inl rfl
  | some message =>
    refine .inr ⟨fun hserves => ?_, message, rfl⟩
    rw [hserves.refuse] at h
    cases h

theorem ofFile_cases [medium : Medium] (host : Host) (file : String) (backing : Backing)
    (readOnly : Bool) :
    Storage.ofFile host file backing readOnly =
        .ok (.ofSize file (host.contents file).size backing readOnly) ∨
      ¬ medium.Serves file ∧ ∃ message, Storage.ofFile host file backing readOnly =
        .error (.file (.medium message)) := by
  unfold Storage.ofFile
  rcases serve_cases host .inspect file with hinspect | ⟨hserves, message, hinspect⟩
  · rw [hinspect]
    by_cases hm : (Storage.ofSize file (host.contents file).size backing readOnly).mapped = true
    · simp only [hm, if_true, bind, Except.bind]
      rcases serve_cases host .map file with hmap | ⟨hserves, message, hmap⟩
      · exact .inl (by rw [hmap]; rfl)
      · exact .inr ⟨hserves, message, by rw [hmap]⟩
    · simp only [hm, bind, Except.bind]
      exact .inl rfl
  · rw [hinspect]
    exact .inr ⟨hserves, message, rfl⟩

/-- A file that can be created is, unless the host fails. -/
theorem createFile_cases [Medium] (hfile : host.checkCreatable file = .ok ()) (size : Nat)
    (backing : Backing) :
    (Storage.createFile file size backing).run host =
        .ok (.ofSize file size backing false) (host.replace file (zeros size)) ∨
      Failed file (Storage.createFile file size backing) host := by
  have hcheck : (ask fun host => host.checkCreatable file : Action Host Unit).run host =
      .ok () host := run_ask_of_ok hfile
  have hempty : (modify fun host => host.replace file .empty : Action Host Unit).run host =
      .ok () (host.replace file .empty) := rfl
  unfold Failed
  rw [Storage.createFile, run_bind_of_ok hcheck, run_bind_of_ok hempty]
  -- The old file is gone by now, so a failure from here on leaves an empty one or a new one.
  rcases serve_cases (host.replace file .empty) .resize file with hserve | ⟨hserves, message, hserve⟩
  · have hresize : (modify fun host => host.resize file size : Action Host Unit).run
        (host.replace file .empty) = .ok () (host.replace file (zeros size)) := by
      rw [← Host.resize_replace_empty]
      rfl
    have hserved : (ask fun host => Medium.serve host .resize file : Action Host Unit).run
        (host.replace file .empty) = .ok () (host.replace file .empty) := run_ask_of_ok hserve
    rw [run_bind_of_ok hserved, run_bind_of_ok hresize]
    have hsize : ((host.replace file (zeros size)).contents file).size = size := by
      rw [Host.contents_replace_self, size_zeros]
    rcases ofFile_cases (host.replace file (zeros size)) file backing false with
      hopen | ⟨hserves, message, hopen⟩
    · rw [hsize] at hopen
      exact .inl (run_ask_of_ok hopen)
    · exact .inr ⟨_, _, DiskError.isOutage_medium message, hserves, run_ask_of_error hopen⟩
  · have hrefused : (ask fun host => Medium.serve host .resize file : Action Host Unit).run
        (host.replace file .empty) = .error _ (host.replace file .empty) := run_ask_of_error hserve
    exact .inr ⟨_, _, DiskError.isOutage_medium message, hserves, run_bind_of_error hrefused _⟩

theorem run_createFile (hfile : host.checkCreatable file = .ok ()) (size : Nat) (backing : Backing) :
    (Storage.createFile file size backing).run host =
      .ok (.ofSize file size backing false) (host.replace file (zeros size)) :=
  (createFile_cases hfile size backing).resolve_right not_failed

theorem backed_replace (host : Host) (file : String) (size : Nat) (backing : Backing) :
    (Storage.ofSize file size backing false).Backed (host.replace file (zeros size)) where
  isSome_find? := by
    change ((host.replace file (zeros size)).find? file).isSome
    rw [Host.find?_replace_self]
    rfl
  size_le := by
    have hsize : ((host.replace file (zeros size)).contents file).size = size := by
      rw [Host.contents_replace_self, size_zeros]
    exact Nat.le_of_eq hsize.symm

/-- What creating a device does, once the file is there. -/
theorem create_lays_or_failed [Medium] (hfile : host.checkCreatable file = .ok ())
    (hsize : format.fileSize blocks = .ok size)
    (hlimit : format = .diskCopy42 → blocks * 512 < 0x100000000) (options : DeviceOptions) :
    (∃ container after, (create file format blocks options).run host =
        .ok ⟨.ofSize file size options.backing false, container, false, true⟩ after ∧
      Lays format blocks options.nibble.syncPolicy (.ofSize file size options.backing false)
        (host.replace file (zeros size)) after container) ∨
      Failed file (create file format blocks options) host := by
  have hzero (k : Nat) : byteAt ((host.replace file (zeros size)).contents file) k = 0 := by
    rw [Host.contents_replace_self, byteAt_zeros]
  have hstorage : format.fileSize blocks =
      .ok (Storage.ofSize file size options.backing false).size := hsize
  have hbacked := backed_replace host file size options.backing
  have hfileSize : (Action.ofExcept (format.fileSize blocks) : Action Host Nat).run host =
      .ok size host := run_ofExcept_eq_ok_iff.mpr ⟨hsize, rfl⟩
  unfold Failed
  rw [create, run_bind_of_ok hfileSize]
  rcases createFile_cases hfile size options.backing with hmade | hfailed
  · rw [run_bind_of_ok hmade]
    have hreach := hbacked.reaches (Nat.le_refl _)
    rcases createContainer_laysOut hstorage hlimit options.nibble hreach with
      ⟨container, after, hrun, -, hlays⟩ | ⟨hw, -⟩ | hfailed
    · exact .inl ⟨container, after, run_bind_of_ok hrun _, hlays hbacked hzero⟩
    · cases hw
    · exact .inr (hfailed.bind _)
  · exact .inr (hfailed.bind _)

/-- Where the host never fails, that is all. -/
theorem run_create_lays (hfile : host.checkCreatable file = .ok ())
    (hsize : format.fileSize blocks = .ok size)
    (hlimit : format = .diskCopy42 → blocks * 512 < 0x100000000) (options : DeviceOptions) :
    ∃ container after, (create file format blocks options).run host =
        .ok ⟨.ofSize file size options.backing false, container, false, true⟩ after ∧
      Lays format blocks options.nibble.syncPolicy (.ofSize file size options.backing false)
        (host.replace file (zeros size)) after container :=
  (create_lays_or_failed hfile hsize hlimit options).resolve_right not_failed

theorem Lays.holds_zero {policy : Gcr.SyncPolicy} {container : Container}
    (h : Lays format blocks policy storage host after container) (hs : storage.Backed host)
    (hw : storage.readOnly = false) :
    Holds (⟨storage, container, false, true⟩, after) fun _ => Bytes.zero 512 :=
  ⟨hs.kept h.kept, h.holds, h.checksum, fun _ => hw⟩

/-- What a device is that was made so. -/
theorem Lays.fresh {container : Container} {backing : Backing} {policy : Gcr.SyncPolicy}
    (hfile : host.checkCreatable file = .ok ()) (hsize : format.fileSize blocks = .ok size)
    (hblocks : blocks < 0x100000000) (hlimit : format = .diskCopy42 → blocks * 512 < 0x100000000)
    (h : Lays format blocks policy (.ofSize file size backing false) (host.replace file (zeros size))
      after container) :
    Fresh file format blocks (⟨.ofSize file size backing false, container, false, true⟩, after) := by
  have hafter : (after.contents file).size = size := by
    have hkept : (after.contents file).size = ((host.replace file (zeros size)).contents file).size :=
      h.kept.size_eq
    rw [hkept, Host.contents_replace_self, size_zeros]
  have hholds := h.holds
  rw [h.layout_eq] at hholds
  refine ⟨rfl, hafter.symm, rfl, h.format_eq, ⟨_, h.layout_eq⟩, h.header_le, ?_,
    ⟨by rw [hafter]; exact hsize, hblocks, hlimit, h.heads, ?_⟩,
    h.holds_zero (backed_replace host file size backing) rfl⟩
  · change after.access? file = _
    rw [h.kept.access_eq]
    exact Host.access?_replace_self hfile _
  · change (format.layout blocks .strict).Holds (after.contents file).size _ _
    rw [hafter]
    exact Format.layout_holds hholds .strict

/-- Creating an image succeeds for every number of blocks that the format takes. -/
theorem run_create (hfile : host.checkCreatable file = .ok ())
    (hsize : format.fileSize blocks = .ok size) (hlimit : blocks * 512 < 0x100000000)
    (options : DeviceOptions) :
    ∃ device after, (create file format blocks options).run host = .ok device after ∧
      Fresh file format blocks (device, after) := by
  obtain ⟨container, after, hrun, hlays⟩ := run_create_lays hfile hsize (fun _ => hlimit) options
  exact ⟨_, after, hrun, hlays.fresh hfile hsize (by omega) fun _ => hlimit⟩

/-- The header of a DiskCopy 4.2 image refuses 4 GiB of data, when the file has been emptied. -/
theorem create_tooLarge_or_failed [Medium] (hlarge : 0x100000000 ≤ blocks * 512)
    (hfile : host.checkCreatable file = .ok ()) (options : DeviceOptions) :
    (create file .diskCopy42 blocks options).run host =
        .error (.format .diskCopy42 .tooManyBlocks)
          (host.replace file (zeros (84 + blocks * 512))) ∨
      Failed file (create file .diskCopy42 blocks options) host := by
  have hsize : Format.diskCopy42.fileSize blocks = .ok (84 + blocks * 512) := if_neg (by omega)
  have hfileSize : (Action.ofExcept (Format.diskCopy42.fileSize blocks) : Action Host Nat).run
      host = .ok (84 + blocks * 512) host := run_ofExcept_eq_ok_iff.mpr ⟨hsize, rfl⟩
  unfold Failed
  rw [create, run_bind_of_ok hfileSize]
  rcases createFile_cases hfile (84 + blocks * 512) options.backing with hmade | hfailed
  · rw [run_bind_of_ok hmade]
    refine .inl (run_bind_of_error ?_ _)
    rw [Container.create, Container.createDiskCopy, if_neg (Nat.not_lt.mpr hlarge)]
    rfl
  · exact .inr (hfailed.bind _)

/-- How creating an image ends. What is wrong with the number of blocks or with the file is found
out before anything is done, but for one thing; and then the host may fail. -/
theorem create_cases [Medium] (file : String) (format : Format) (blocks : Nat)
    (options : DeviceOptions) (host : Host) :
    (∃ size container after, format.fileSize blocks = .ok size ∧
        host.checkCreatable file = .ok () ∧ (format = .diskCopy42 → blocks * 512 < 0x100000000) ∧
        (create file format blocks options).run host =
          .ok ⟨.ofSize file size options.backing false, container, false, true⟩ after ∧
        Lays format blocks options.nibble.syncPolicy (.ofSize file size options.backing false)
          (host.replace file (zeros size)) after container) ∨
      (∃ e, (format.fileSize blocks = .error e ∨ host.checkCreatable file = .error e) ∧
        (create file format blocks options).run host = .error e host) ∨
      (format = .diskCopy42 ∧ 0x100000000 ≤ blocks * 512 ∧
        (create file format blocks options).run host =
          .error (.format .diskCopy42 .tooManyBlocks)
            (host.replace file (zeros (84 + blocks * 512)))) ∨
      Failed file (create file format blocks options) host := by
  cases hsize : format.fileSize blocks with
  | error e =>
    refine .inr (.inl ⟨e, .inl rfl, ?_⟩)
    rw [create, hsize]
    rfl
  | ok size =>
    cases hfile : host.checkCreatable file with
    | error e =>
      have hfileSize : (Action.ofExcept (format.fileSize blocks) : Action Host Nat).run host =
          .ok size host := run_ofExcept_eq_ok_iff.mpr ⟨hsize, rfl⟩
      have hrefused : (ask fun host => host.checkCreatable file : Action Host Unit).run host =
          .error e host := run_ask_of_error hfile
      refine .inr (.inl ⟨e, .inr rfl, ?_⟩)
      rw [create, run_bind_of_ok hfileSize]
      exact run_bind_of_error (run_bind_of_error hrefused _) _
    | ok _ =>
      -- The number of blocks that a DiskCopy header has room for is checked after the file was
      -- created.
      by_cases hlimit : format = .diskCopy42 → blocks * 512 < 0x100000000
      · rcases create_lays_or_failed hfile hsize hlimit options with
          ⟨container, after, hrun, hlays⟩ | hfailed
        · exact .inl ⟨size, container, after, rfl, rfl, hlimit, hrun, hlays⟩
        · exact .inr (.inr (.inr hfailed))
      · obtain ⟨rfl, hlarge⟩ := Classical.not_imp.mp hlimit
        rcases create_tooLarge_or_failed (Nat.not_lt.mp hlarge) hfile options with hrun | hfailed
        · exact .inr (.inr (.inl ⟨rfl, Nat.not_lt.mp hlarge, hrun⟩))
        · exact .inr (.inr (.inr hfailed))

section

variable {device : Device} {options : DeviceOptions}

/-- What can be created, and what it is then: the format takes that many blocks, and the file can be
made. -/
theorem exists_of_create [Medium]
    (h : (create file format blocks options).run host = .ok device after) :
    ∃ size container, format.fileSize blocks = .ok size ∧ host.checkCreatable file = .ok () ∧
      (format = .diskCopy42 → blocks * 512 < 0x100000000) ∧
      device = ⟨.ofSize file size options.backing false, container, false, true⟩ ∧
      Lays format blocks options.nibble.syncPolicy (.ofSize file size options.backing false)
        (host.replace file (zeros size)) after container := by
  rcases create_cases file format blocks options host with
    ⟨size, container, created, hsize, hfile, hlimit, hrun, hlays⟩ | ⟨e, -, hrun⟩ | ⟨-, -, hrun⟩ |
    ⟨e, _, -, -, hrun⟩
  · rw [hrun] at h
    cases h
    exact ⟨size, container, hsize, hfile, hlimit, rfl, hlays⟩
  · rw [hrun] at h
    cases h
  · rw [hrun] at h
    cases h
  · rw [hrun] at h
    cases h

/-- Whatever device was created, it holds zeros. -/
theorem holds_of_create [Medium]
    (h : (create file format blocks options).run host = .ok device after) :
    Holds (device, after) fun _ => Bytes.zero 512 := by
  obtain ⟨size, container, -, -, -, rfl, hlays⟩ := exists_of_create h
  exact hlays.holds_zero (backed_replace host file size options.backing) rfl

/-- Whatever device was created is known to be fresh. -/
theorem fresh_of_create [Medium] (hblocks : blocks < 0x100000000)
    (h : (create file format blocks options).run host = .ok device after) :
    Fresh file format blocks (device, after) := by
  obtain ⟨size, container, hsize, hfile, hlimit, rfl, hlays⟩ := exists_of_create h
  exact hlays.fresh hfile hsize hblocks hlimit

end

end Diskette.Device
