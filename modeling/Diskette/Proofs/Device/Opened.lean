import Diskette.Proofs.Device.RoundTrip

/-!
# Opened images are arrays of blocks

Every file that is accepted as an image has its blocks inside the data: in all layouts but that of
encoded tracks, each byte of each block has a position there. So a device that was opened shows an
array of blocks, whatever the bytes of its file.

* `Container.openFile_ends`: an accepted file has its blocks inside.
* `exists_holds_of_openFile`: an opened device shows an array.
-/

namespace Diskette

open Diskette.Action Header

/-! ## Layouts that fit -/

namespace Layout

/-- Every byte of every block has a place of its own in a file of `size` bytes. The bytes of encoded
tracks have none. -/
def Fits (size : Nat) : Layout → Prop
  | sequential layout => layout.base + layout.blocks * 512 ≤ size
  | interleaved layout => layout.blocks % 8 = 0 ∧ layout.base + layout.blocks * 512 ≤ size
  | nibble _ => False

theorem exists_placed (position : Nat → Nat → Nat) (blocks : Nat) (data : ByteArray) :
    ∃ c, Placed position blocks data c := by
  refine ⟨fun block => .tabulate 512 fun i => byteAt data (position block i), fun block _ i hi => ?_⟩
  rw [Bytes.byte_tabulate, if_pos hi]

/-- Data of any bytes holds some array. -/
theorem Fits.exists_holds {layout : Layout} {size : Nat} (h : layout.Fits size) (data : ByteArray) :
    ∃ c, layout.Holds size data c := by
  cases layout with
  | sequential layout =>
    obtain ⟨c, hc⟩ := exists_placed layout.position layout.blocks data
    exact ⟨c, h, hc⟩
  | interleaved layout =>
    obtain ⟨c, hc⟩ := exists_placed layout.position layout.blocks data
    exact ⟨c, h.1, h.2, hc⟩
  | nibble layout => exact h.elim

end Layout

/-! ## Accepted files -/

namespace Container

variable {storage : Storage} {host : Host} {container : Container} {policy : Gcr.SyncPolicy}

/-- Where the parts of a container are in a file of `size` bytes. -/
structure Fits (container : Container) (size : Nat) : Prop where
  header_le : container.headerSize ≤ container.layout.base
  layout (h : container.layout.format ≠ .nibble) : container.layout.Fits size
  /-- The data with the checksum is there, and the header is no part of the data. -/
  checksum (header : DiskCopy) (stale : Bool) (h : container.envelope = .diskCopy header stale) :
    84 ≤ container.layout.base ∧ 84 + header.dataSize ≤ size

/-- What is known of a container when a file of `size` bytes was accepted as an image. -/
structure Accepted (container : Container) (size : Nat) : Prop extends Fits container size where
  not_stale {header : DiskCopy} {stale : Bool} (h : container.envelope = .diskCopy header stale) :
    stale = false
  blocks_pos {layout : Layout.Sequential} (h : container.layout = .sequential layout) :
    0 < layout.blocks

theorem twoImgLayout_fits {header : TwoImg} {layout : Layout} {size : Nat}
    (h : twoImgLayout header policy = .ok layout)
    (hle : header.dataOffset.toNat + twoImgDataLength header ≤ size)
    (hn : layout.format ≠ .nibble) : layout.Fits size := by
  unfold twoImgLayout at h
  -- The data was found to lie in the file before; what is left is that each layout stays within it.
  cases hf : header.format with
  | proDos =>
    simp only [hf] at h
    generalize (if header.blocks = 0 then twoImgDataLength header / 512
      else header.blocks.toNat) = blocks at h
    split at h
    · cases h
    · cases h
      change header.dataOffset.toNat + blocks * 512 ≤ size
      omega
  | dos =>
    simp only [hf] at h
    split at h
    · cases h
    · cases h
      change twoImgDataLength header / 512 % 8 = 0 ∧
        header.dataOffset.toNat + twoImgDataLength header / 512 * 512 ≤ size
      omega
  | nibble =>
    simp only [hf] at h
    cases ht : Layout.Nibble.tracksIn (twoImgDataLength header) with
    | error e =>
      rw [ht] at h
      cases h
    | ok tracks =>
      rw [ht] at h
      cases h
      exact absurd rfl hn

theorem twoImgLayout_blocks_pos {header : TwoImg} {layout : Layout.Sequential}
    (h : twoImgLayout header policy = .ok (.sequential layout)) : 0 < layout.blocks := by
  unfold twoImgLayout at h
  cases hf : header.format with
  | proDos =>
    simp only [hf] at h
    generalize (if header.blocks = 0 then twoImgDataLength header / 512
      else header.blocks.toNat) = blocks at h
    split at h
    · cases h
    · next hblocks =>
      cases h
      exact Nat.pos_of_ne_zero fun h0 => hblocks (.inl h0)
  | dos =>
    simp only [hf] at h
    split at h <;> cases h
  | nibble =>
    simp only [hf] at h
    cases ht : Layout.Nibble.tracksIn (twoImgDataLength header) <;> rw [ht] at h <;> cases h

theorem twoImgLayout_base {header : TwoImg} {layout : Layout}
    (h : twoImgLayout header policy = .ok layout) : layout.base = header.dataOffset.toNat := by
  unfold twoImgLayout at h
  cases hf : header.format with
  | proDos =>
    simp only [hf] at h
    generalize (if header.blocks = 0 then twoImgDataLength header / 512
      else header.blocks.toNat) = blocks at h
    split at h
    · cases h
    · cases h
      rfl
  | dos =>
    simp only [hf] at h
    split at h
    · cases h
    · cases h
      rfl
  | nibble =>
    simp only [hf] at h
    cases ht : Layout.Nibble.tracksIn (twoImgDataLength header) with
    | error e =>
      rw [ht] at h
      cases h
    | ok tracks =>
      rw [ht] at h
      cases h
      rfl

theorem openTwoImg_accepted (h : openTwoImg storage host policy = .ok container) :
    container.Accepted storage.size := by
  unfold openTwoImg at h
  simp only [bind, Except.bind] at h
  split at h
  · cases h
  · split at h
    · cases h
    · next header _ =>
      split at h
      · cases h
      · next hrange =>
        cases hlayout : twoImgLayout header policy with
        | error e =>
          rw [hlayout] at h
          cases h
        | ok layout =>
          rw [hlayout] at h
          cases h
          refine ⟨⟨?_, fun hn => twoImgLayout_fits hlayout (by omega) hn, nofun⟩, nofun, ?_⟩
          · change header.headerSize.toNat ≤ layout.base
            rw [twoImgLayout_base hlayout]
            omega
          · rintro sequential rfl
            exact twoImgLayout_blocks_pos hlayout

theorem davex_blocks_le {head : Bytes Davex.size} {size blocks : Nat}
    (h : Davex.parse head size = .ok blocks) : 0 < blocks ∧ 512 + blocks * 512 ≤ size := by
  unfold Davex.parse at h
  split at h
  · dsimp only at h
    split at h
    · cases h
    · next hle =>
      cases h
      change ¬ (leNat head.data 33 2 = 0 ∨ 512 + leNat head.data 33 2 * 512 > size) at hle
      change 0 < leNat head.data 33 2 ∧ 512 + leNat head.data 33 2 * 512 ≤ size
      omega
  · cases h

theorem openDavex_accepted (h : openDavex storage host = .ok container) :
    container.Accepted storage.size := by
  unfold openDavex at h
  simp only [bind, Except.bind] at h
  split at h
  · cases h
  · next head _ =>
    cases hparse : Davex.parse head storage.size with
    | error e =>
      rw [hparse] at h
      cases h
    | ok blocks =>
      rw [hparse] at h
      cases h
      obtain ⟨hpos, hle⟩ := davex_blocks_le hparse
      refine ⟨⟨Nat.le_refl _, fun _ => hle, nofun⟩, nofun, ?_⟩
      rintro sequential ⟨⟩
      exact hpos

theorem diskCopy_dataSize_le {head : Bytes DiskCopy.size} {size : Nat} {header : DiskCopy}
    (h : DiskCopy.parse head size = .ok header) :
    512 ≤ header.dataSize ∧ 84 + header.dataSize ≤ size := by
  unfold DiskCopy.parse at h
  dsimp only at h
  split at h
  · cases h
  · split at h
    · cases h
    · split at h
      · cases h
      · next hblocks =>
        split at h
        · cases h
        · next hle =>
          cases h
          change ¬ (beNat head.data 0x40 4 = 0 ∨ beNat head.data 0x40 4 % 512 ≠ 0) at hblocks
          change ¬ 84 + beNat head.data 0x40 4 + beNat head.data 0x44 4 > size at hle
          change 512 ≤ beNat head.data 0x40 4 ∧ 84 + beNat head.data 0x40 4 ≤ size
          omega

theorem openDiskCopy_ends (storage : Storage) (host : Host) :
    Ends (openDiskCopy storage) host fun r after =>
      Host.Kept storage.file (fun _ => False) host after ∧
        ∀ container, r = .ok container → container.Accepted storage.size := by
  unfold openDiskCopy
  simp only [ends_bind, ends_ask]
  cases readHead .diskCopy42 DiskCopy.size storage host with
  | error e => exact ⟨.refl, fun _ hr => by cases hr⟩
  | ok head =>
    simp only [ends_ofExcept]
    cases hparse : DiskCopy.parse head storage.size with
    | error e => exact ⟨.refl, fun _ hr => by cases hr⟩
    | ok header =>
      obtain ⟨hpos, hle⟩ := diskCopy_dataSize_le hparse
      -- A warning about the checksum comes last and is no reason to refuse the file.
      have haccepted : Accepted ⟨.diskCopy header false, .sequential ⟨84, header.dataSize / 512⟩⟩
          storage.size := by
        refine ⟨⟨Nat.le_refl _, fun _ => ?_, fun header' stale he => ?_⟩, ?_, ?_⟩
        · change 84 + header.dataSize / 512 * 512 ≤ storage.size
          omega
        · cases he
          exact ⟨Nat.le_refl _, hle⟩
        · rintro header' stale ⟨⟩
          rfl
        · rintro sequential ⟨⟩
          exact Nat.div_pos hpos (by decide)
      simp only
      cases storage.read host DiskCopy.size header.dataSize with
      | error e => exact ⟨.refl, fun _ hr => by cases hr⟩
      | ok data =>
        simp only
        split
        · exact ⟨Host.kept_warn .., fun container he => by cases he; exact haccepted⟩
        · exact ⟨.refl, fun container he => by cases he; exact haccepted⟩

theorem ofFileSize_le {layout : Layout.Sequential} {size : Nat}
    (h : Layout.Sequential.ofFileSize size = .ok layout) :
    0 < layout.blocks ∧ layout.base + layout.blocks * 512 ≤ size := by
  unfold Layout.Sequential.ofFileSize at h
  split at h
  · cases h
  · split at h
    · cases h
      change 0 < size / 512 ∧ 0 + size / 512 * 512 ≤ size
      omega
    · cases h

theorem whole_of_ofFileSize {layout : Layout.Interleaved} {size : Nat}
    (h : Layout.Interleaved.ofFileSize size = .ok layout) :
    layout.blocks % 8 = 0 ∧ layout.base + layout.blocks * 512 ≤ size := by
  unfold Layout.Interleaved.ofFileSize at h
  split at h
  · cases h
  · split at h
    · cases h
      change size / 512 % 8 = 0 ∧ 0 + size / 512 * 512 ≤ size
      omega
    · cases h

/-- A file that is accepted as an image of a format has its blocks inside, and nothing is done to
it. -/
theorem openAs_ends (format : Format) (storage : Storage) (host : Host) (policy : Gcr.SyncPolicy) :
    Ends (openAs format storage policy) host fun r after =>
      Host.Kept storage.file (fun _ => False) host after ∧
        ∀ container, r = .ok container → container.Accepted storage.size := by
  -- The layouts without a header go by the size alone; the others have a lemma each.
  cases format with
  | proDosOrder =>
    refine ends_ofExcept.mpr ⟨.refl, fun container h => ?_⟩
    cases hl : Layout.Sequential.ofFileSize storage.size with
    | error e =>
      rw [hl] at h
      cases h
    | ok layout =>
      rw [hl] at h
      cases h
      obtain ⟨hpos, hle⟩ := ofFileSize_le hl
      refine ⟨⟨Nat.zero_le _, fun _ => hle, nofun⟩, nofun, ?_⟩
      rintro sequential ⟨⟩
      exact hpos
  | dosOrder =>
    refine ends_ofExcept.mpr ⟨.refl, fun container h => ?_⟩
    cases hl : Layout.Interleaved.ofFileSize storage.size with
    | error e =>
      rw [hl] at h
      cases h
    | ok layout =>
      rw [hl] at h
      cases h
      exact ⟨⟨Nat.zero_le _, fun _ => whole_of_ofFileSize hl, nofun⟩, nofun, nofun⟩
  | nibble =>
    refine ends_ofExcept.mpr ⟨.refl, fun container h => ?_⟩
    cases hl : Layout.Nibble.tracksIn storage.size with
    | error e =>
      rw [hl] at h
      cases h
    | ok tracks =>
      rw [hl] at h
      cases h
      exact ⟨⟨Nat.zero_le _, fun hn => absurd rfl hn, nofun⟩, nofun, nofun⟩
  | twoImg => exact ends_ask.mpr ⟨.refl, fun _ h => openTwoImg_accepted h⟩
  | diskCopy42 => exact openDiskCopy_ends storage host
  | davex => exact ends_ask.mpr ⟨.refl, fun _ h => openDavex_accepted h⟩

/-- The same when the format is found out first. -/
theorem openFile_ends (storage : Storage) (host : Host) (path : String) (options : DeviceOptions) :
    Ends (openFile storage path options) host fun r after =>
      Host.Kept storage.file (fun _ => False) host after ∧
        ∀ container, r = .ok container → container.Accepted storage.size := by
  unfold openFile
  cases options.format with
  | some format => exact openAs_ends format storage host _
  | none =>
    simp only [ends_bind, ends_ask]
    cases detectFormat storage host path with
    | error e => exact ⟨.refl, fun _ hr => by cases hr⟩
    | ok format => exact openAs_ends format storage host _

end Container

namespace Storage

variable {host : Host} {file : String} {backing : Backing} {readOnly : Bool} {storage : Storage}

/-- A file that is opened can be read, and all of it is there. -/
theorem exists_of_openFile [Medium]
    (h : Storage.openFile host file backing readOnly = .ok storage) :
    host.checkReadable file = .ok () ∧
      ∃ readOnly', storage = .ofSize file (host.contents file).size backing readOnly' := by
  have hopened {readOnly' : Bool}
      (h : (host.checkReadable file >>= fun _ => ofFile host file backing readOnly') =
        .ok storage) : host.checkReadable file = .ok () ∧
      ∃ readOnly', storage = .ofSize file (host.contents file).size backing readOnly' := by
    cases hr : host.checkReadable file with
    | error e =>
      rw [hr] at h
      cases h
    | ok _ =>
      rw [hr] at h
      have hsame := (ofFile_eq host file backing readOnly').symm.trans (ofFile_of_ok h)
      cases hsame
      exact ⟨rfl, _, rfl⟩
  unfold Storage.openFile at h
  dsimp only at h
  split at h
  · exact hopened h
  · split at h
    · exact hopened h
    · exact hopened h
    · cases h

theorem openFile_backed [Medium] (h : Storage.openFile host file backing readOnly = .ok storage) :
    storage.Backed host := by
  obtain ⟨hr, _, rfl⟩ := exists_of_openFile h
  refine ⟨?_, Nat.le_refl _⟩
  change (host.find? file).isSome
  cases hf : host.find? file with
  | some found => rfl
  | none => simp [Host.checkReadable, Host.lookUp, hf] at hr

end Storage

namespace Device

variable {file : String} {options : DeviceOptions} {host after : Host} {device : Device}

/-- The parts of an opened device. -/
theorem exists_of_openFile [Medium] (h : (openFile file options).run host = .ok device after) :
    ∃ storage container,
      Storage.openFile host file options.backing options.readOnly = .ok storage ∧
      (Container.openFile storage file options).run host = .ok container after ∧
      device = ⟨storage, container, storage.readOnly || container.locked, false⟩ := by
  unfold openFile at h
  simp only [EStateM.run_bind, run_ask] at h
  cases hopen : Storage.openFile host file options.backing options.readOnly with
  | error e =>
    rw [hopen] at h
    cases h
  | ok storage =>
    simp only [hopen] at h
    cases hrun : (Container.openFile storage file options).run host with
    | error e middle =>
      rw [hrun] at h
      cases h
    | ok container middle =>
      rw [hrun] at h
      cases h
      exact ⟨storage, container, rfl, hrun, rfl⟩

theorem file_of_openFile [Medium] (h : (openFile file options).run host = .ok device after) :
    device.storage.file = file := by
  obtain ⟨storage, container, hopen, -, rfl⟩ := exists_of_openFile h
  obtain ⟨-, _, rfl⟩ := Storage.exists_of_openFile hopen
  rfl

theorem modified_of_openFile [Medium] (h : (openFile file options).run host = .ok device after) :
    device.modified = false := by
  obtain ⟨_, _, -, -, rfl⟩ := exists_of_openFile h
  rfl

/-- The header of an opened device is no part of its blocks. -/
theorem headerSize_le_of_openFile [Medium]
    (h : (openFile file options).run host = .ok device after) :
    device.container.headerSize ≤ device.container.layout.base := by
  obtain ⟨storage, container, -, hrun, rfl⟩ := exists_of_openFile h
  obtain ⟨-, haccepted⟩ := (Container.openFile_ends storage host file options).of_ok hrun
  exact (haccepted container rfl).header_le

/-- An opened device shows an array, unless its blocks are encoded on tracks. -/
theorem exists_holds_of_openFile [Medium] (h : (openFile file options).run host = .ok device after)
    (hn : device.container.layout.format ≠ .nibble) : ∃ c, Holds (device, after) c := by
  obtain ⟨storage, container, hopen, hrun, rfl⟩ := exists_of_openFile h
  obtain ⟨hkept, hfits⟩ := (Container.openFile_ends storage host file options).of_ok hrun
  obtain ⟨c, hc⟩ := ((hfits container rfl).layout hn).exists_holds (after.contents storage.file)
  exact ⟨c, (Storage.openFile_backed hopen).kept hkept, hc, (hfits container rfl).checksum,
    fun hw => (Bool.or_eq_false_iff.mp hw).1⟩

end Device

end Diskette
