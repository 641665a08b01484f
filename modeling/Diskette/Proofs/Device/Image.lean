import Diskette.Proofs.Device
import Diskette.Proofs.Header

/-!
# Images of every format

What the bytes of a file have to be for it to be an image of a format, with these blocks. A created
image is one, and an image is opened with the blocks that it has.

* `Image`: the bytes of a file are an image.
* `Image.run_openAs`: an image is opened as what it is.
-/

namespace Diskette

open Diskette.Action Header

/-- The layout of a new image of `blocks` blocks. -/
def Format.layout (format : Format) (blocks : Nat) (policy : Gcr.SyncPolicy) : Layout :=
  match format with
  | .proDosOrder => .sequential ⟨0, blocks⟩
  | .dosOrder => .interleaved ⟨0, blocks⟩
  | .nibble => .nibble (.ofTracks 0 (blocks / 8) policy)
  | .twoImg => .sequential ⟨64, blocks⟩
  | .diskCopy42 => .sequential ⟨84, blocks⟩
  | .davex => .sequential ⟨512, blocks⟩

/-- The policy of a new layout does not matter for the blocks that it shows. -/
theorem Format.layout_holds {format : Format} {blocks size : Nat} {policy : Gcr.SyncPolicy}
    {data : ByteArray} {c : Nat → Block} (h : (format.layout blocks policy).Holds size data c)
    (policy' : Gcr.SyncPolicy) : (format.layout blocks policy').Holds size data c := by
  cases format with
  | nibble =>
    obtain ⟨volume, sectors, hf, hc⟩ := h
    exact ⟨volume, sectors, ⟨hf.fits, hf.tracks_le, hf.track, fun _ hi => nomatch hi⟩, hc⟩
  | proDosOrder => exact h
  | dosOrder => exact h
  | twoImg => exact h
  | diskCopy42 => exact h
  | davex => exact h

/-- The file starts with the header of a new image of `blocks` blocks, whatever the checksum of the
data. -/
def Format.Heads (format : Format) (blocks : Nat) (data : ByteArray) : Prop :=
  match format with
  | .twoImg => ∃ header, TwoImg.ofBlocks blocks = .ok header ∧
      ∀ i, i < 64 → byteAt data i = header.toBytes.byte i
  | .diskCopy42 => ∀ i, i < 84 → ¬ (0x48 ≤ i ∧ i < 0x4C) →
      byteAt data i = (DiskCopy.newHeader blocks).byte i
  | .davex => ∀ i, i < 512 → byteAt data i = (Davex.newHeader blocks).byte i
  | _ => True

/-- The bytes of a file are an image of the format that has `blocks` blocks, those of `c`. Block
numbers have 32 bits, and in the header of a DiskCopy 4.2 image the size of the data has so many. -/
structure Image (format : Format) (blocks : Nat) (data : ByteArray) (c : Nat → Block) : Prop where
  size_eq : format.fileSize blocks = .ok data.size
  blocks_lt : blocks < 0x100000000
  limit (h : format = .diskCopy42) : blocks * 512 < 0x100000000
  heads : format.Heads blocks data
  holds : (format.layout blocks .strict).Holds data.size data c

namespace Image

variable {format : Format} {blocks : Nat} {data : ByteArray} {c : Nat → Block} {storage : Storage}
  {host : Host}

/-! ## Sizes -/

theorem blocks_ne_zero {size : Nat} (h : format.fileSize blocks = .ok size) : blocks ≠ 0 := by
  rintro rfl
  cases h

theorem tracksFor_eq_ok {tracks : Nat} (h : Layout.Nibble.tracksFor blocks = .ok tracks) :
    tracks = blocks / 8 ∧ blocks % 8 = 0 ∧ blocks / 8 ≤ 255 := by
  unfold Layout.Nibble.tracksFor at h
  split at h
  · cases h
  · split at h
    · cases h
      exact ⟨rfl, by omega, by assumption⟩
    · cases h

theorem nibble_size {size : Nat} (h : Format.nibble.fileSize blocks = .ok size) :
    size = blocks / 8 * 6656 ∧ blocks % 8 = 0 ∧ blocks / 8 ≤ 255 := by
  have hne := blocks_ne_zero h
  simp only [Format.fileSize, hne, if_false, Layout.Nibble.dataSize] at h
  cases ht : Layout.Nibble.tracksFor blocks with
  | error e =>
    rw [ht] at h
    cases h
  | ok tracks =>
    obtain ⟨rfl, h8, h255⟩ := tracksFor_eq_ok ht
    rw [ht] at h
    cases h
    exact ⟨rfl, h8, h255⟩

theorem dosOrder_size {size : Nat} (h : Format.dosOrder.fileSize blocks = .ok size) :
    size = blocks * 512 ∧ blocks % 8 = 0 := by
  have hne := blocks_ne_zero h
  simp only [Format.fileSize, hne, if_false, Layout.Interleaved.dataSize] at h
  split at h
  · cases h
    exact ⟨rfl, by assumption⟩
  · cases h

theorem davex_size {size : Nat} (h : Format.davex.fileSize blocks = .ok size) :
    size = 512 + blocks * 512 ∧ blocks < 0x10000 := by
  have hne := blocks_ne_zero h
  simp only [Format.fileSize, hne, if_false, Layout.Sequential.dataSize] at h
  split at h
  · cases h
    exact ⟨rfl, by assumption⟩
  · cases h

theorem ofBlocks_eq_ok {header : TwoImg} (h : TwoImg.ofBlocks blocks = .ok header) :
    header.dataOffset.toNat = 64 ∧ header.dataLength.toNat = blocks * 512 ∧
      header.blocks.toNat = blocks ∧ header.headerSize.toNat = 64 ∧ header.format = .proDos ∧
      header.locked = false := by
  unfold TwoImg.ofBlocks at h
  split at h
  · next hlt =>
    cases h
    refine ⟨rfl, ?_, ?_, rfl, rfl, rfl⟩
    · simp only [UInt32.toNat_ofNat']
      omega
    · simp only [UInt32.toNat_ofNat']
      omega
  · cases h

theorem twoImg_size {size : Nat} (h : Format.twoImg.fileSize blocks = .ok size) :
    size = 64 + blocks * 512 ∧ ∃ header, TwoImg.ofBlocks blocks = .ok header := by
  have hne := blocks_ne_zero h
  simp only [Format.fileSize, hne, if_false] at h
  cases hh : TwoImg.ofBlocks blocks with
  | error e =>
    rw [hh] at h
    cases h
  | ok header =>
    obtain ⟨h64, hlength, -⟩ := ofBlocks_eq_ok hh
    rw [hh] at h
    simp only [h64, hlength, Except.ok.injEq] at h
    exact ⟨h.symm, header, rfl⟩

theorem diskCopy_size {size : Nat} (h : Format.diskCopy42.fileSize blocks = .ok size) :
    size = 84 + blocks * 512 := by
  have hne := blocks_ne_zero h
  simp only [Format.fileSize, hne, if_false, Layout.Sequential.dataSize, Except.ok.injEq] at h
  exact h.symm

theorem proDosOrder_size {size : Nat} (h : Format.proDosOrder.fileSize blocks = .ok size) :
    size = blocks * 512 := by
  rw [Format.fileSize_proDosOrder (blocks_ne_zero h)] at h
  exact (Except.ok.inj h).symm

theorem blocks_layout {size : Nat} (h : format.fileSize blocks = .ok size) (policy : Gcr.SyncPolicy) :
    (format.layout blocks policy).blocks = blocks := by
  cases format with
  | nibble =>
    obtain ⟨-, h8, -⟩ := nibble_size h
    change blocks / 8 * 8 = blocks
    omega
  | proDosOrder => rfl
  | dosOrder => rfl
  | twoImg => rfl
  | diskCopy42 => rfl
  | davex => rfl

/-! ## Opening -/

/-- What opening a file as an image of a format comes to. -/
structure Opens (format : Format) (blocks : Nat) (policy : Gcr.SyncPolicy) (storage : Storage)
    (before after : Host) (container : Container) : Prop where
  format_eq : container.format = format
  layout_eq : container.layout = format.layout blocks policy
  locked_eq : container.locked = false
  checksum (header : DiskCopy) (stale : Bool) (h : container.envelope = .diskCopy header stale) :
    84 ≤ container.layout.base ∧ 84 + header.dataSize ≤ storage.size
  kept : Host.Kept storage.file (fun _ => False) before after

theorem readHead_eq {n : Nat} (hs : storage.Backed host) (hle : n ≤ storage.size) (format : Format) :
    Container.readHead format n storage host =
      .ok (Bytes.ofSlice n (host.contents storage.file) 0) := by
  have hread : storage.read host 0 n = .ok (slice (host.contents storage.file) 0 n) :=
    hs.read_eq (by omega)
  have hslice : Bytes.ofSlice n (slice (host.contents storage.file) 0 n) 0 =
      Bytes.ofSlice n (host.contents storage.file) 0 := by
    refine Bytes.ext_byte fun i hi => ?_
    rw [Bytes.byte_ofSlice, Bytes.byte_ofSlice, byteAt_slice, Nat.zero_add, if_pos hi, if_pos hi,
      if_pos hi, Nat.zero_add]
  unfold Container.readHead
  rw [if_neg (Nat.not_lt.mpr hle), hread]
  exact congrArg Except.ok hslice

theorem openTwoImg_eq (hs : storage.Backed host) (hpos : blocks ≠ 0)
    (hsize : storage.size = 64 + blocks * 512) {header : TwoImg}
    (hheader : TwoImg.ofBlocks blocks = .ok header)
    (hbytes : ∀ i, i < 64 → byteAt (host.contents storage.file) i = header.toBytes.byte i)
    (policy : Gcr.SyncPolicy) :
    Container.openTwoImg storage host policy =
      .ok ⟨.twoImg header, .sequential ⟨64, blocks⟩⟩ := by
  obtain ⟨hoffset, hlength, hblocks, hheaderSize, hformat, -⟩ := ofBlocks_eq_ok hheader
  have hhead : Bytes.ofSlice 64 (host.contents storage.file) 0 = header.toBytes := by
    refine Bytes.ext_byte fun i hi => ?_
    rw [Bytes.byte_ofSlice, if_pos hi, Nat.zero_add, hbytes i hi]
  have hparse := TwoImg.parse_toBytes header (Nat.le_of_eq hheaderSize.symm)
  have hdata : Container.twoImgDataLength header = blocks * 512 := by
    unfold Container.twoImgDataLength
    rw [if_neg, hlength]
    rintro ⟨h0, -⟩
    rw [h0] at hlength
    change 0 = blocks * 512 at hlength
    omega
  have hlayout : Container.twoImgLayout header policy = .ok (.sequential ⟨64, blocks⟩) := by
    have hne : header.blocks ≠ 0 := by
      intro h0
      rw [h0] at hblocks
      exact hpos hblocks.symm
    unfold Container.twoImgLayout
    simp only [hformat, hdata, if_neg hne, hblocks, hoffset]
    rw [if_neg (by omega)]
  unfold Container.openTwoImg
  rw [readHead_eq hs (by omega), hhead]
  simp only [bind, Except.bind, hparse, hdata, hoffset, hheaderSize, hlayout]
  rw [if_neg (by omega)]
  rfl

theorem run_openDiskCopy (hs : storage.Backed host) (hpos : blocks ≠ 0)
    (hlimit : blocks * 512 < 0x100000000) (hsize : storage.size = 84 + blocks * 512)
    (hbytes : ∀ i, i < 84 → ¬ (0x48 ≤ i ∧ i < 0x4C) →
      byteAt (host.contents storage.file) i = (DiskCopy.newHeader blocks).byte i) :
    ∃ header after, (Container.openDiskCopy storage).run host =
        .ok ⟨.diskCopy header false, .sequential ⟨84, blocks⟩⟩ after ∧
      header.dataSize = blocks * 512 ∧ Host.Kept storage.file (fun _ => False) host after := by
  have hhead : ∀ i, i < 84 → ¬ (0x48 ≤ i ∧ i < 0x4C) →
      (Bytes.ofSlice 84 (host.contents storage.file) 0).byte i =
        (DiskCopy.newHeader blocks).byte i := by
    intro i hi hne
    rw [Bytes.byte_ofSlice, if_pos hi, Nat.zero_add]
    exact hbytes i hi hne
  obtain ⟨header, hparse, hdata⟩ :=
    DiskCopy.parse_newHeader hpos hlimit (Nat.le_of_eq hsize.symm) hhead
  have hread : (ask fun host => Container.readHead .diskCopy42 84 storage host :
      Action Host (Bytes 84)).run host = .ok _ host :=
    run_ask_of_ok (readHead_eq hs (by omega) .diskCopy42)
  have hbytes : (ask fun host => storage.read host DiskCopy.size header.dataSize :
      Action Host ByteArray).run host = .ok _ host :=
    run_ask_of_ok (hs.read_eq (by rw [hdata]; exact Nat.le_of_eq hsize.symm))
  have hblocks : header.dataSize / 512 = blocks := by omega
  have hheader : (Action.ofExcept (DiskCopy.parse (Bytes.ofSlice 84 (host.contents storage.file) 0)
      storage.size) : Action Host DiskCopy).run host = .ok header host := by
    rw [hparse]
    rfl
  refine ⟨header, ?_⟩
  rw [Container.openDiskCopy, run_bind_of_ok hread, run_bind_of_ok hheader, run_bind_of_ok hbytes]
  dsimp only
  rw [hblocks]
  -- A checksum that is wrong is logged, and the image is opened all the same.
  by_cases hsum : DiskCopy.checksum (slice (host.contents storage.file) DiskCopy.size
      header.dataSize) = header.dataChecksum
  · exact ⟨host, by rw [if_neg (not_not.mpr hsum)]; rfl, hdata, .refl⟩
  · exact ⟨host.warn _, by rw [if_pos hsum]; rfl, hdata, Host.kept_warn ..⟩

private theorem openDavex_of_parse {head : Bytes Davex.size}
    (hread : Container.readHead .davex Davex.size storage host = .ok head)
    (hparse : Davex.parse head storage.size = .ok blocks) :
    Container.openDavex storage host = .ok ⟨.davex, .sequential ⟨512, blocks⟩⟩ := by
  unfold Container.openDavex
  rw [hread]
  simp only [bind, Except.bind, hparse]
  rfl

theorem openDavex_eq (hs : storage.Backed host) (hpos : blocks ≠ 0) (hlt : blocks < 0x10000)
    (hsize : storage.size = 512 + blocks * 512)
    (hbytes : ∀ i, i < 512 → byteAt (host.contents storage.file) i =
      (Davex.newHeader blocks).byte i) :
    Container.openDavex storage host = .ok ⟨.davex, .sequential ⟨512, blocks⟩⟩ := by
  have hhead : Bytes.ofSlice Davex.size (host.contents storage.file) 0 = Davex.newHeader blocks := by
    refine Bytes.ext_byte fun i hi => ?_
    rw [Bytes.byte_ofSlice, if_pos hi, Nat.zero_add]
    exact hbytes i hi
  have hread := readHead_eq hs (show Davex.size ≤ storage.size by change 512 ≤ _; omega) .davex
  rw [hhead] at hread
  exact openDavex_of_parse hread (Davex.parse_newHeader hpos hlt (Nat.le_of_eq hsize.symm))

end Image

open Image in
/-- A file that is an image of a format is opened as that. -/
theorem Image.run_openAs {format : Format} {blocks : Nat} {c : Nat → Block} {storage : Storage}
    {host : Host} (h : Image format blocks (host.contents storage.file) c)
    (hs : storage.Backed host) (hsize : storage.size = (host.contents storage.file).size)
    (policy : Gcr.SyncPolicy) :
    ∃ container after, (Container.openAs format storage policy).run host = .ok container after ∧
      Opens format blocks policy storage host after container := by
  have hpos := blocks_ne_zero h.size_eq
  have hlt := h.blocks_lt
  have hsize' := h.size_eq
  rw [← hsize] at hsize'
  -- The parser of each format takes what the writer of that format lays out.
  cases format with
  | proDosOrder =>
    have heq := proDosOrder_size hsize'
    have hfile : Layout.Sequential.ofFileSize storage.size = .ok ⟨0, blocks⟩ := by
      unfold Layout.Sequential.ofFileSize
      rw [heq, if_neg (by omega), Nat.mul_div_cancel _ (by decide), if_pos (by omega)]
    refine ⟨⟨.bare, .sequential ⟨0, blocks⟩⟩, host, ?_, rfl, rfl, rfl, nofun, .refl⟩
    rw [Container.openAs, hfile]
    rfl
  | dosOrder =>
    obtain ⟨heq, h8⟩ := dosOrder_size hsize'
    have hfile : Layout.Interleaved.ofFileSize storage.size = .ok ⟨0, blocks⟩ := by
      unfold Layout.Interleaved.ofFileSize
      rw [heq, if_neg (by omega), Nat.mul_div_cancel _ (by decide), if_pos (by omega)]
    refine ⟨⟨.bare, .interleaved ⟨0, blocks⟩⟩, host, ?_, rfl, rfl, rfl, nofun, .refl⟩
    rw [Container.openAs, hfile]
    rfl
  | nibble =>
    obtain ⟨heq, h8, h255⟩ := nibble_size hsize'
    have hfile : Layout.Nibble.tracksIn storage.size = .ok (blocks / 8) := by
      unfold Layout.Nibble.tracksIn Gcr.trackSize
      rw [heq, if_neg (by omega), Nat.mul_div_cancel _ (by decide), if_pos h255]
    refine ⟨⟨.bare, .nibble (.ofTracks 0 (blocks / 8) policy)⟩, host, ?_, rfl, rfl, rfl, nofun, .refl⟩
    rw [Container.openAs, hfile]
    rfl
  | twoImg =>
    obtain ⟨header, hheader, hbytes⟩ := h.heads
    obtain ⟨-, -, -, -, -, hlocked⟩ := ofBlocks_eq_ok hheader
    have hopen := openTwoImg_eq hs hpos (twoImg_size hsize').1 hheader hbytes policy
    exact ⟨_, host, run_ask_of_ok hopen, rfl, rfl, hlocked, nofun, .refl⟩
  | diskCopy42 =>
    have heq := diskCopy_size hsize'
    obtain ⟨header, after, hrun, hdata, hkept⟩ :=
      run_openDiskCopy hs hpos (h.limit rfl) heq h.heads
    refine ⟨_, after, hrun, rfl, rfl, rfl, ?_, hkept⟩
    rintro header' stale' he
    cases he
    exact ⟨Nat.le_refl _, by rw [hdata]; exact Nat.le_of_eq heq.symm⟩
  | davex =>
    obtain ⟨heq, hlt⟩ := davex_size hsize'
    exact ⟨_, host, run_ask_of_ok (openDavex_eq hs hpos hlt heq h.heads), rfl, rfl, rfl, nofun, .refl⟩

end Diskette
