import Diskette.Proofs.Cache.Mapped
import Diskette.Proofs.Upheld

/-!
# Files with a header are recognised

Three formats have a header, and by it their files are told from those of plain blocks. No write of a
block and no flush touches what a file is recognised by, so an image that was created with a header is
taken for what it is at any time, whatever its blocks hold and whatever its file is called.

* `Format.Headed`: the formats with a header.
* `Image.hasSignature`, `hasIdentity`, `describes`: what the first bytes of their images say.
* `Image.detectFormat_eq`: the images are recognised.
* `Device.upholds_reached`: every access to a device keeps it one that was reached.
* `Device.run_create_recognized`: created, used in any way, and opened without a word about its format.
-/

namespace Diskette

open Diskette.Action Header

/-- The format has a header, by which its files are recognised. -/
def Format.Headed : Format → Prop
  | .twoImg | .diskCopy42 | .davex => True
  | _ => False

variable {format : Format} {blocks : Nat} {file : String} {host : Host}
  {c : Nat → Block}

/-! ## Recognising -/

/-- What a file is recognised by is in its first 84 bytes. -/
theorem Image.le_size {data : ByteArray} (h : Image format blocks data c)
    (hheaded : format.Headed) : 84 ≤ data.size := by
  have hpos := Image.blocks_ne_zero h.size_eq
  have hsize := h.size_eq
  cases format with
  | twoImg =>
    have := (Image.twoImg_size hsize).1
    omega
  | diskCopy42 =>
    have := Image.diskCopy_size hsize
    omega
  | davex =>
    have := (Image.davex_size hsize).1
    omega
  | proDosOrder => exact hheaded.elim
  | dosOrder => exact hheaded.elim
  | nibble => exact hheaded.elim

section

variable {data start : ByteArray}

theorem Image.hasSignature (h : Image .twoImg blocks data c)
    (hstart : ∀ i, i < 84 → byteAt start i = byteAt data i) : TwoImg.hasSignature start := by
  obtain ⟨header, -, hbytes⟩ := h.heads
  rw [TwoImg.hasSignature_congr fun i hi => (hstart i (by omega)).trans (hbytes i (by omega))]
  exact header.hasSignature_toBytes

theorem Image.hasIdentity (h : Image .davex blocks data c)
    (hstart : ∀ i, i < 84 → byteAt start i = byteAt data i) : Davex.hasIdentity start := by
  rw [Davex.hasIdentity_congr fun i hi => (hstart i (by omega)).trans (h.heads i (by omega))]
  exact Davex.hasIdentity_newHeader blocks

/-- The first byte of a DiskCopy 4.2 image is the length of a name, which neither of the others
starts with. -/
theorem Image.describes (h : Image .diskCopy42 blocks data c)
    (hstart : ∀ i, i < 84 → byteAt start i = byteAt data i) :
    byteAt start 0 = 8 ∧
      DiskCopy.describes (Bytes.ofSlice DiskCopy.size start 0) data.size := by
  have hhead (i : Nat) (hi : i < 84) (hne : ¬ (0x48 ≤ i ∧ i < 0x4C)) :
      (Bytes.ofSlice DiskCopy.size start 0).byte i = (DiskCopy.newHeader blocks).byte i := by
    rw [Bytes.byte_ofSlice, if_pos hi, Nat.zero_add, hstart i hi, h.heads i hi hne]
  have hname := (DiskCopy.numbers_of_byte_eq (h.limit rfl) hhead).1
  rw [Bytes.byte_ofSlice, if_pos (by decide)] at hname
  rw [Image.diskCopy_size h.size_eq]
  exact ⟨hname, DiskCopy.describes_newHeader (h.limit rfl) hhead⟩

end

/-- An image with a header is recognised, under any name. -/
theorem Image.detectFormat_eq {storage : Storage}
    (h : Image format blocks (host.contents storage.file) c) (hheaded : format.Headed)
    (hs : storage.Backed host) (hsize : storage.size = (host.contents storage.file).size)
    (path : String) : Container.detectFormat storage host path = .ok format := by
  have hle := h.le_size hheaded
  have hread : storage.read host 0 (min storage.size DiskCopy.size) =
      .ok (slice (host.contents storage.file) 0 84) := by
    rw [hsize, Nat.min_eq_right hle]
    exact hs.read_eq (hsize ▸ hle)
  have hcount : (slice (host.contents storage.file) 0 84).size = 84 := by
    rw [size_slice]
    omega
  have hstart (i : Nat) (hi : i < 84) :
      byteAt (slice (host.contents storage.file) 0 84) i = byteAt (host.contents storage.file) i := by
    rw [byteAt_slice, if_pos hi, Nat.zero_add]
  -- Only the first 84 bytes are looked at, whatever is behind them.
  generalize slice (host.contents storage.file) 0 84 = start at hread hcount hstart
  -- The signatures are tried in turn, and the first byte tells each header from those tried before
  -- it.
  have hfirst (hne : byteAt start 0 ≠ 0x32) : ¬ (4 ≤ start.size ∧ TwoImg.hasSignature start) := by
    simp [TwoImg.hasSignature_eq_false hne]
  unfold Container.detectFormat
  simp only [hread, bind, Except.bind]
  cases format with
  | twoImg =>
    rw [if_pos ⟨by omega, h.hasSignature hstart⟩]
    rfl
  | davex =>
    have hidentity := h.hasIdentity hstart
    rw [if_neg (hfirst (by rw [Davex.byteAt_zero_of_hasIdentity hidentity]; decide)),
      if_pos ⟨by omega, hidentity⟩]
    rfl
  | diskCopy42 =>
    obtain ⟨hzero, hdescribes⟩ := h.describes hstart
    have hidentity : ¬ (16 ≤ start.size ∧ Davex.hasIdentity start) := by
      rintro ⟨-, hidentity⟩
      rw [Davex.byteAt_zero_of_hasIdentity hidentity] at hzero
      exact absurd hzero (by decide)
    rw [← hsize] at hdescribes
    rw [if_neg (hfirst (by rw [hzero]; decide)), if_neg hidentity, if_pos ⟨hcount, hdescribes⟩]
    rfl
  | proDosOrder => exact hheaded.elim
  | dosOrder => exact hheaded.elim
  | nibble => exact hheaded.elim

/-- So are they through any storage that is opened. -/
theorem Image.detectFormat_of_openFile {storage : Storage} {backing : Backing} {readOnly : Bool}
    (h : Image format blocks (host.contents file) c) (hheaded : format.Headed)
    (ha : host.access? file = some .readWrite)
    (hopen : Storage.openFile host file backing readOnly = .ok storage) (path : String) :
    Container.detectFormat storage host path = .ok format := by
  obtain ⟨-, _, rfl⟩ := Storage.exists_of_openFile hopen
  have hfile : (host.find? file).isSome := Host.isSome_find?.mpr (congrArg Option.isSome ha)
  exact h.detectFormat_eq hheaded ⟨hfile, Nat.le_refl _⟩ rfl path

namespace Device

variable {start : Device × Host}

/-- An image with a header is opened with the blocks that it has by options that name no format. -/
theorem run_openFile_recognized (h : Image format blocks (host.contents file) c)
    (hheaded : format.Headed) (ha : host.access? file = some .readWrite) {options : DeviceOptions}
    (hformat : options.format = none) :
    ∃ device after, (openFile file options).run host = .ok device after ∧
      device.format = format ∧ device.blocks = blocks ∧ Holds (device, after) c := by
  let named : DeviceOptions := { options with format := some format }
  have hnamed : named.format = some format := rfl
  obtain ⟨device, after, hrun, hopened⟩ := run_openFile h ha hnamed
  refine ⟨device, after, ?_, hopened⟩
  -- Both open the same storage, and there the format is found that the one of them names.
  obtain ⟨storage, hopen⟩ : ∃ storage,
      Storage.openFile host file options.backing options.readOnly = .ok storage :=
    ⟨_, Storage.openFile_of_access? ha _ _⟩
  have hstorage : (ask fun host => Storage.openFile host file options.backing options.readOnly :
      Action Host Storage).run host = .ok storage host := run_ask_of_ok hopen
  have hdetect : (ask fun host => Container.detectFormat storage host file :
      Action Host Format).run host = .ok format host :=
    run_ask_of_ok (h.detectFormat_of_openFile hheaded ha hopen file)
  have hcontainer : (Container.openFile storage file options).run host =
      (Container.openFile storage file named).run host := by
    unfold Container.openFile
    rw [hformat]
    exact run_bind_of_ok hdetect _
  rw [openFile, run_bind_of_ok hstorage, EStateM.run_bind] at hrun ⊢
  rw [hcontainer]
  exact hrun

/-! ## Using -/

/-- A block that was written in part is one of some array. -/
theorem Sited.reached_of_broken [Medium] {layout : Layout.Sequential} {state : Device × Host}
    {c : Nat → Block} {block : Nat} {data : Block} {after : Host} (h : Sited layout state)
    (hc : Holds state c)
    (hbroken : state.1.storage.Broken state.2 (layout.offset block) data.data after) :
    ∃ c', Reached state (state.1, after) c' := by
  have hkept : Host.Kept state.1.storage.file state.1.container.Free state.2 after :=
    hbroken.kept hc.backed fun k hlo _ => .inl <| by
      rw [h.layout_eq]
      exact Nat.le_trans (Nat.le_add_right _ _) hlo
  obtain ⟨c', hc'⟩ := h.layout_fits.exists_holds (after.contents state.1.storage.file)
  exact ⟨c', ⟨rfl, rfl, rfl, rfl, hkept⟩, hc.backed.kept hkept, hc', hc.checksum, hc.writable⟩

/-- Every access to a device of blocks in a row leaves it one that was reached, with the blocks that
it has by then. -/
theorem upholds_reached {layout : Layout.Sequential} (hs : Sited layout start) :
    Upholds Medium.Any False fun _ state => ∃ c, Reached start state c where
  readOnly_eq hp := hp.elim
  warn := by
    rintro _ device host ⟨c, h⟩ warning
    exact ⟨c, h.warn warning⟩
  read := by
    rintro _ state ⟨c, h⟩ block
    exact ((arrayDisk start).read_ends h block).mono fun _ _ hr => ⟨c, hr.1⟩
  write := by
    rintro _ state _ _ ⟨c, h⟩ block data
    have hsited := hs.reached h
    refine (hsited.write_cases block data).mono ?_
    rintro (e | ⟨⟩) ⟨device, host⟩ hr
    -- A write that the host broke off has left some other block there, and the header as it was.
    · rcases hr with ⟨-, hsame⟩ | ⟨-, hdevice, hbroken⟩
      · exact hsame ▸ ⟨c, h⟩
      · obtain rfl : device = state.1 := hdevice
        obtain ⟨c', he, hc'⟩ := hsited.reached_of_broken h.2 hbroken
        exact ⟨c', h.1.trans he, hc'⟩
    · exact ⟨_, h.1.trans (hsited.evolves hr.2), hsited.holds_wrote h.2 hr.2⟩
  flush := by
    rintro _ state _ _ ⟨c, h⟩
    exact h.2.flush_keeps.mono fun _ _ hr => ⟨c, h.1.trans hr.1, hr.2.1⟩
  update := by
    rintro _ state ⟨c, h⟩ hm block change
    have hsited := hs.reached h
    refine (hsited.updateMapped_wrote hm block change).mono ?_
    rintro (e | ⟨⟩) after hr
    · obtain rfl : after = state := hr
      exact ⟨c, h⟩
    · obtain ⟨-, bytes, hw⟩ := hr
      exact ⟨_, h.1.trans (hsited.evolves hw), hsited.holds_wrote h.2 hw⟩

/-- A device that was created with a header has its blocks in a row behind it. -/
theorem Fresh.exists_sited (h : Fresh file format blocks start) (hheaded : format.Headed) :
    ∃ layout, Sited layout start := by
  obtain ⟨policy, hlayout⟩ := h.layout_eq
  obtain ⟨layout, hsequential⟩ : ∃ layout, format.layout blocks policy = .sequential layout := by
    cases format with
    | twoImg => exact ⟨_, rfl⟩
    | diskCopy42 => exact ⟨_, rfl⟩
    | davex => exact ⟨_, rfl⟩
    | proDosOrder => exact hheaded.elim
    | dosOrder => exact hheaded.elim
    | nibble => exact hheaded.elim
  exact ⟨layout, h.holds.sited (hlayout.trans hsequential) h.header_le⟩

/-- On any medium the end of a device leaves the blocks as they are. -/
theorem Reached.dispose [Medium] {c : Nat → Block} {device : Device} {host : Host}
    (h : Reached start (device, host) c) :
    ∃ final, Reached start final c ∧ device.dispose host = final.2 := by
  have hflush := h.2.flush_keeps
  unfold Ends EStateM.run at hflush
  unfold Device.dispose
  dsimp only
  cases hr : flush (device, host) with
  | ok _ after =>
    rw [hr] at hflush
    exact ⟨after, ⟨h.1.trans hflush.1, hflush.2.1⟩, rfl⟩
  | error e after =>
    rw [hr] at hflush
    exact ⟨(after.1, after.2.warn _), Reached.warn ⟨h.1.trans hflush.1, hflush.2.1⟩ _, rfl⟩

/-- Whatever is done with a device until it has ended, and whatever the host fails to do, its file is
an image. -/
theorem Fresh.image_of_ended [Medium] {device : Device} {created ended : Host} {n : Nat}
    (h : Fresh file format blocks (device, created)) (hheaded : format.Headed)
    (he : Ended Medium.Any device created ended n) :
    ended.access? file = some .readWrite ∧
      ∃ c, Image format blocks (ended.contents file) c := by
  obtain ⟨layout, hsited⟩ := h.exists_sited hheaded
  obtain ⟨last, before, hused, rfl⟩ := he.exists_dispose trivial
  obtain ⟨c, hreached⟩ := (upholds_reached hsited).used ⟨_, .refl _, h.holds⟩ hused
  obtain ⟨final, hfinal, hdispose⟩ := hreached.dispose
  rw [hdispose]
  exact ⟨h.access_of_reached hfinal, c, h.image_of_reached hfinal⟩

/-- A device is created with a header. Whatever is then done with it, by itself or through caches, on
media that may fail, once it has ended its file is recognised under any name, and opened with as many
blocks by options that do not name its format. -/
theorem run_create_recognized {size : Nat} (hheaded : format.Headed)
    (hfile : host.checkCreatable file = .ok ()) (hsize : format.fileSize blocks = .ok size)
    (hlimit : blocks * 512 < 0x100000000) (options : DeviceOptions) :
    ∃ device created, (create file format blocks options).run host = .ok device created ∧
      ∀ [Medium] ended n, Ended Medium.Any device created ended n →
        (∀ backing readOnly, ∃ storage,
          @Storage.openFile .reliable ended file backing readOnly = .ok storage ∧
            ∀ path, Container.detectFormat storage ended path = .ok format) ∧
        ∀ reopening : DeviceOptions, reopening.format = none →
          ∃ reopened opened, (@openFile .reliable file reopening).run ended = .ok reopened opened ∧
            reopened.format = format ∧ reopened.blocks = blocks := by
  obtain ⟨device, created, hcreate, hfresh⟩ := run_create hfile hsize hlimit options
  refine ⟨device, created, hcreate, fun {medium} ended n hended => ?_⟩
  obtain ⟨haccess, c, himage⟩ := hfresh.image_of_ended hheaded hended
  refine ⟨fun backing readOnly => ?_, fun reopening hformat => ?_⟩
  · have hopen := Storage.openFile_of_access? haccess backing readOnly
    exact ⟨_, hopen, himage.detectFormat_of_openFile hheaded haccess hopen⟩
  · obtain ⟨reopened, opened, hopen, hsame, hcount, -⟩ :=
      run_openFile_recognized himage hheaded haccess hformat
    exact ⟨reopened, opened, hopen, hsame, hcount⟩

/-- A DiskCopy 4.2 image under the name of a nibble image, in whose first block something else is
written that starts like a 2IMG image. -/
theorem run_create_recognized_diskCopy :
    ∃ device created, (create "disk.nib" .diskCopy42 1600 {}).run Host.empty = .ok device created ∧
      let written := (Operation.write 0 (Bytes.ofList 512 TwoImg.signature)).perform.stateAfter
        (device, created)
      ∃ reopened opened,
        (openFile "disk.nib" {}).run (written.1.close.stateAfter written.2) = .ok reopened opened ∧
          reopened.format = .diskCopy42 ∧ reopened.blocks = 1600 := by
  have hfile : Host.empty.checkCreatable "disk.nib" = .ok () :=
    Host.checkCreatable_of_absent rfl (by simp)
  have hheaded : Format.diskCopy42.Headed := trivial
  have hsize : Format.diskCopy42.fileSize 1600 = .ok 819284 := rfl
  obtain ⟨device, created, hcreate, hrecognized⟩ :=
    run_create_recognized hheaded hfile hsize (by decide) {}
  refine ⟨device, created, hcreate, ?_⟩
  exact (hrecognized _ _ (.closed (.operate trivial .start _ rfl))).2 {} rfl

end Device

end Diskette
