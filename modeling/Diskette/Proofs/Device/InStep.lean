import Diskette.Proofs.Cache.Mapped
import Diskette.Proofs.Device.Copies
import Diskette.Proofs.Device.Creating
import Diskette.Proofs.Upheld

/-!
# Checksums in step

A DiskCopy 4.2 file has a checksum of its data in its header. A write of a block leaves it behind,
and the device remembers that until it is flushed. After a flush, or when the device has ended, the
checksum is right if it was right at first or if any block was written. If none was, the file is as
it was, with a wrong checksum if it had one.

* `InStep`: the checksum in the file is that of its data.
* `Tracked`: what a device knows of its checksum after some blocks were written.
* `upholds_tracked`: every access keeps that.
* `Settled`: the file, once the device was flushed.
* `settled_of_diskCopy`: whatever is done with a DiskCopy 4.2 device.
-/

namespace Diskette

open Diskette.Action Header

/-- Zeros before anything else do not count. -/
theorem Header.DiskCopy.checksumFrom_of_zeros {data : ByteArray} (rest : Nat) {count : Nat} :
    ∀ {offset : Nat}, (∀ i, offset ≤ i → i < offset + 2 * count → byteAt data i = 0) →
      checksumFrom data (count + rest) offset 0 = checksumFrom data rest (offset + 2 * count) 0 := by
  induction count with
  | zero => exact fun _ => by rw [Nat.zero_add, Nat.mul_zero, Nat.add_zero]
  | succ count ih =>
    intro offset h
    have hstep : addWord 0 (wordAt data offset) = 0 := by
      rw [wordAt, h offset (Nat.le_refl _) (by omega), h (offset + 1) (by omega) (by omega)]
      decide
    rw [Nat.succ_add, checksumFrom, hstep, ih fun i hlo hhi => h i (by omega) (by omega)]
    congr 1
    omega

/-- The checksum of zeros is zero. -/
theorem Header.DiskCopy.checksum_of_zeros {data : ByteArray} (h : ∀ i, byteAt data i = 0) :
    checksum data = 0 :=
  checksumFrom_of_zeros 0 fun i _ _ => h i

/-- The checksum in a DiskCopy 4.2 file is that of its data. -/
def InStep (data : ByteArray) : Prop :=
  beNat data DiskCopy.checksumOffset 4 =
    (DiskCopy.checksum (slice data DiskCopy.size (beNat data 0x40 4))).toNat

/-! ## Opening -/

namespace Container

/-- The numbers in a header are those in the file. -/
theorem parse_readHead {storage : Storage} {host : Host} {head : Bytes DiskCopy.size}
    {header : DiskCopy} {fileSize : Nat}
    (hread : readHead .diskCopy42 DiskCopy.size storage host = .ok head)
    (hparse : DiskCopy.parse head fileSize = .ok header) :
    header.dataSize = beNat (host.contents storage.file) 0x40 4 ∧
      header.dataChecksum =
        UInt32.ofNat (beNat (host.contents storage.file) DiskCopy.checksumOffset 4) := by
  have hbyte {i : Nat} (hi : i < 84) : byteAt head.data i = byteAt (host.contents storage.file) i := by
    unfold readHead at hread
    split at hread
    · cases hread
    · split at hread
      · next data hdata =>
        cases hread
        obtain ⟨-, -, rfl⟩ := Storage.read_eq_ok_iff.mp hdata
        change (Bytes.ofSlice 84 _ 0).byte i = _
        rw [Bytes.byte_ofSlice, if_pos hi, byteAt_slice, Nat.zero_add, if_pos hi, Nat.zero_add]
      · cases hread
  unfold DiskCopy.parse at hparse
  dsimp only at hparse
  split at hparse
  · cases hparse
  · split at hparse
    · cases hparse
    · split at hparse
      · cases hparse
      · split at hparse
        · cases hparse
        · cases hparse
          refine ⟨beNat_congr fun i _ hi => hbyte (by omega), congrArg UInt32.ofNat ?_⟩
          exact beNat_congr fun i _ hi => hbyte (Nat.lt_of_lt_of_le hi (by decide))

/-- What is known of a container that was opened, and of the host then. -/
def Described (storage : Storage) (host : Host) (r : Except DiskError Container) (after : Host) :
    Prop :=
  (InStep (host.contents storage.file) → after = host) ∧
    ∀ container header stale, r = .ok container → container.envelope = .diskCopy header stale →
      (∃ layout, container.layout = .sequential layout) ∧
        beNat (host.contents storage.file) 0x40 4 = header.dataSize

theorem described_error (storage : Storage) (host : Host) (e : DiskError) :
    Described storage host (.error e) host := ⟨fun _ => rfl, nofun⟩

/-- Nothing is logged about a checksum that is right. -/
theorem openDiskCopy_described (storage : Storage) (host : Host) :
    Ends (openDiskCopy storage) host (Described storage host) := by
  unfold openDiskCopy
  simp only [ends_bind, ends_ask]
  cases hread : readHead .diskCopy42 DiskCopy.size storage host with
  | error e => exact described_error storage host e
  | ok head =>
    simp only [ends_ofExcept]
    cases hparse : DiskCopy.parse head storage.size with
    | error e => exact described_error storage host e
    | ok header =>
      obtain ⟨hsize, hsum⟩ := parse_readHead hread hparse
      simp only
      cases hdata : storage.read host DiskCopy.size header.dataSize with
      | error e => exact described_error storage host e
      | ok data =>
        have hcontainer (header' : DiskCopy) (stale : Bool)
            (he : Envelope.diskCopy header false = .diskCopy header' stale) :
            beNat (host.contents storage.file) 0x40 4 = header'.dataSize := by
          cases he
          exact hsize.symm
        simp only
        split
        · next hne =>
          refine ⟨fun hstep => absurd ?_ hne, ?_⟩
          · obtain ⟨-, -, rfl⟩ := Storage.read_eq_ok_iff.mp hdata
            rw [hsum, hstep, hsize, UInt32.ofNat_toNat]
          · rintro container header' stale ⟨⟩ he
            exact ⟨⟨_, rfl⟩, hcontainer header' stale he⟩
        · refine ⟨fun _ => rfl, ?_⟩
          rintro container header' stale ⟨⟩ he
          exact ⟨⟨_, rfl⟩, hcontainer header' stale he⟩

theorem envelope_of_openTwoImg {storage : Storage} {host : Host} {policy : Gcr.SyncPolicy}
    {container : Container} (h : openTwoImg storage host policy = .ok container) :
    ∃ header, container.envelope = .twoImg header := by
  unfold openTwoImg at h
  simp only [bind, Except.bind] at h
  split at h
  · cases h
  · split at h
    · cases h
    · next header _ =>
      split at h
      · cases h
      · cases hlayout : twoImgLayout header policy <;> rw [hlayout] at h <;> cases h
        exact ⟨header, rfl⟩

theorem envelope_of_openDavex {storage : Storage} {host : Host} {container : Container}
    (h : openDavex storage host = .ok container) : container.envelope = .davex := by
  unfold openDavex at h
  simp only [bind, Except.bind] at h
  split at h
  · cases h
  · next head _ =>
    cases hparse : Davex.parse head storage.size <;> rw [hparse] at h <;> cases h
    rfl

theorem openAs_described (format : Format) (storage : Storage) (host : Host)
    (policy : Gcr.SyncPolicy) : Ends (openAs format storage policy) host (Described storage host) := by
  -- Any other format has another envelope.
  have hother {r : Except DiskError Container}
      (h : ∀ container, r = .ok container → ∀ header stale,
        container.envelope ≠ .diskCopy header stale) : Described storage host r host :=
    ⟨fun _ => rfl, fun container header stale hr he => absurd he (h container hr header stale)⟩
  cases format with
  | proDosOrder =>
    refine ends_ofExcept.mpr (hother fun container hr => ?_)
    cases hl : Layout.Sequential.ofFileSize storage.size <;> rw [hl] at hr <;> cases hr
    exact nofun
  | dosOrder =>
    refine ends_ofExcept.mpr (hother fun container hr => ?_)
    cases hl : Layout.Interleaved.ofFileSize storage.size <;> rw [hl] at hr <;> cases hr
    exact nofun
  | nibble =>
    refine ends_ofExcept.mpr (hother fun container hr => ?_)
    cases hl : Layout.Nibble.tracksIn storage.size <;> rw [hl] at hr <;> cases hr
    exact nofun
  | twoImg =>
    refine ends_ask.mpr (hother fun container hr => ?_)
    obtain ⟨header, henvelope⟩ := envelope_of_openTwoImg hr
    rw [henvelope]
    exact nofun
  | diskCopy42 => exact openDiskCopy_described storage host
  | davex =>
    refine ends_ask.mpr (hother fun container hr => ?_)
    rw [envelope_of_openDavex hr]
    exact nofun

theorem openFile_described (storage : Storage) (host : Host) (path : String)
    (options : DeviceOptions) :
    Ends (openFile storage path options) host (Described storage host) := by
  unfold openFile
  cases options.format with
  | some format => exact openAs_described format storage host _
  | none =>
    simp only [ends_bind, ends_ask]
    cases detectFormat storage host path with
    | error e => exact described_error storage host e
    | ok format => exact openAs_described format storage host _

end Container

namespace Device

variable {layout : Layout.Sequential} {file : String} {original : ByteArray} {n block : Nat}
  {state before after : Device × Host} {bytes : Block}

/-- A file with the checksum of its data written over the old one is in step. -/
theorem inStep_refreshed {data : ByteArray} {size : Nat} (hsize : beNat data 0x40 4 = size)
    (hle : 84 ≤ data.size) :
    let refreshed := overwrite data 0x48
      (beBytes 4 (DiskCopy.checksum (slice data 84 size)).toNat).toByteArray
    beNat refreshed 0x40 4 = size ∧ InStep refreshed := by
  intro refreshed
  have hlength : (beBytes 4 (DiskCopy.checksum (slice data 84 size)).toNat).toByteArray.size = 4 := by
    rw [List.size_toByteArray, length_beBytes]
  have hother {i : Nat} (hi : ¬ (0x48 ≤ i ∧ i < 0x48 + 4)) : byteAt refreshed i = byteAt data i := by
    rw [byteAt_overwrite, hlength, if_neg hi]
  have hsize' : beNat refreshed 0x40 4 = size :=
    (beNat_congr fun i hlo hhi => hother (by omega)).trans hsize
  have hdata : slice refreshed 84 size = slice data 84 size := by
    refine slice_congr ?_ fun i hlo _ => hother (by omega)
    rw [size_overwrite, hlength]
    exact Nat.max_eq_left (by omega)
  refine ⟨hsize', ?_⟩
  unfold InStep
  rw [hsize', hdata, beNat_of_beBytes (n := (DiskCopy.checksum (slice data 84 size)).toNat)]
  · exact Nat.mod_eq_of_lt (UInt32.toNat_lt _)
  · intro k hk
    rw [byteAt_overwrite, hlength, if_pos ⟨Nat.le_add_right _ _, Nat.add_lt_add_left hk _⟩,
      byteAt_toByteArray, Nat.add_sub_cancel_left]

/-- What a device knows of its checksum when `n` blocks have been written since its file was
`original`. -/
structure Tracked (layout : Layout.Sequential) (file : String) (original : ByteArray) (n : Nat)
    (state : Device × Host) : Prop where
  sited : Sited layout state
  file_eq : state.1.storage.file = file
  exists_header : ∃ header stale, state.1.container.envelope = .diskCopy header stale
  dataSize_eq {header : DiskCopy} {stale : Bool}
    (h : state.1.container.envelope = .diskCopy header stale) :
    beNat (contents state) 0x40 4 = header.dataSize
  /-- A flush brings a stale checksum up to date. -/
  of_stale {header : DiskCopy} (h : state.1.container.envelope = .diskCopy header true) :
    state.1.modified = true ∧ state.1.readOnly = false ∧ 0 < n
  of_not_stale {header : DiskCopy} (h : state.1.container.envelope = .diskCopy header false) :
    (n = 0 → contents state = original) ∧ (0 < n → InStep (contents state))

/-! ## Accesses -/

theorem Tracked.warn {device : Device} {host : Host}
    (h : Tracked layout file original n (device, host)) (warning : Warning) :
    Tracked layout file original n (device, host.warn warning) :=
  { h with sited := { h.sited with backed := ⟨h.sited.backed.1, h.sited.backed.2⟩ } }

/-- A block that is written leaves the checksum behind. -/
theorem Tracked.wrote (h : Tracked layout file original n before)
    (hw : Wrote layout block bytes before after)
    (hro : before.1.readOnly = false) : Tracked layout file original (n + 1) after := by
  obtain ⟨header, stale, henvelope⟩ := h.exists_header
  have hsited := h.sited.wrote hw
  have hbase := (h.sited.fits.checksum header stale henvelope).1
  rw [h.sited.layout_eq] at hbase
  have hbase : 84 ≤ layout.base := hbase
  have hsize := h.dataSize_eq henvelope
  obtain ⟨⟨storage, ⟨envelope, inner⟩, readOnly, modified⟩, host⟩ := before
  obtain ⟨device, host'⟩ := after
  obtain rfl : device = _ := hw.device_eq
  obtain rfl : envelope = .diskCopy header stale := henvelope
  refine ⟨hsited, h.file_eq, ⟨header, true, rfl⟩, ?_, fun _ => ⟨rfl, hro, Nat.succ_pos n⟩, nofun⟩
  rintro header' stale' ⟨⟩
  refine Eq.trans (beNat_congr fun k _ hk => hw.written.byte_eq ?_) hsize
  rintro ⟨i, hi, rfl⟩
  have hposition := layout.base_le_position block i
  omega

/-- Nothing is known from whether a device whose checksum is not stale was modified. -/
theorem Tracked.remodified {storage : Storage} {header : DiskCopy} {inner : Layout}
    {readOnly modified : Bool} {host : Host}
    (h : Tracked layout file original n
      (⟨storage, ⟨.diskCopy header false, inner⟩, readOnly, modified⟩, host)) (modified' : Bool) :
    Tracked layout file original n
      (⟨storage, ⟨.diskCopy header false, inner⟩, readOnly, modified'⟩, host) :=
  ⟨⟨h.sited.layout_eq, h.sited.fits, h.sited.backed, h.sited.writable⟩, h.file_eq, h.exists_header,
    h.dataSize_eq, nofun, h.of_not_stale⟩

/-- A stale checksum is computed anew and written. -/
theorem Tracked.refreshed {storage : Storage} {header : DiskCopy} {readOnly modified : Bool}
    {host : Host} (h : Tracked layout file original n
      (⟨storage, ⟨.diskCopy header true, .sequential layout⟩, readOnly, modified⟩, host)) :
    Tracked layout file original n (⟨storage, ⟨.diskCopy (Device.refreshed storage header host) false,
      .sequential layout⟩, readOnly, modified⟩, host.writeAt storage.file 0x48
        (beBytes 4 (Device.refreshed storage header host).dataChecksum.toNat).toByteArray) := by
  obtain ⟨-, -, hpos⟩ := h.of_stale rfl
  obtain ⟨hbase, hle⟩ := h.sited.fits.checksum header true rfl
  have hbacked : storage.Backed host := h.sited.backed
  have hkept := kept_refreshChecksum hbacked hle
  have hcontents (data : ByteArray) : (host.writeAt storage.file 0x48 data).contents storage.file =
      overwrite (host.contents storage.file) 0x48 data := hbacked.contents_writeAt data
  obtain ⟨hsize, hinStep⟩ := inStep_refreshed (h.dataSize_eq rfl)
    (Nat.le_trans (Nat.le_of_add_right_le hle) hbacked.size_le)
  refine ⟨⟨rfl, ⟨h.sited.fits.header_le, h.sited.fits.layout, ?_⟩, hbacked.kept hkept,
    h.sited.writable⟩, h.file_eq, ⟨_, _, rfl⟩, ?_, nofun, fun _ => ⟨?_, ?_⟩⟩
  · rintro header' stale' ⟨⟩
    exact ⟨hbase, hle⟩
  · rintro header' stale' ⟨⟩
    exact (congrArg (beNat · 0x40 4) (hcontents _)).trans hsize
  · exact fun hn => absurd hn (Nat.ne_of_gt hpos)
  · intro _
    unfold contents
    rw [hcontents]
    exact hinStep

/-- Bringing the envelope up to date, where the host tears no write. -/
theorem Tracked.finish_ends [medium : Medium] (hm : medium.Untorn) {storage : Storage}
    {container : Container} {readOnly : Bool} {host : Host}
    (h : Tracked layout file original n (⟨storage, container, readOnly, true⟩, host)) :
    Ends (Container.finish storage) (container, host) fun r after =>
      Tracked layout file original n (⟨storage, after.1, readOnly, true⟩, after.2) ∧
        match r with
        | .ok _ => ∃ header, after.1.envelope = .diskCopy header false
        | .error _ => ¬ medium.Serves file := by
  obtain ⟨header, stale, henvelope⟩ := h.exists_header
  obtain ⟨envelope, inner⟩ := container
  obtain rfl : envelope = .diskCopy header stale := henvelope
  cases stale with
  | false =>
    have hcurrent : ∀ header', (⟨.diskCopy header false, inner⟩ : Container).envelope ≠
        .diskCopy header' true := nofun
    exact (ends_of_run_eq_ok (Container.run_finish_of_not_stale storage host hcurrent)).mpr
      ⟨h, header, rfl⟩
  | true =>
    obtain rfl : inner = .sequential layout := h.sited.layout_eq
    obtain ⟨-, hro, -⟩ := h.of_stale rfl
    obtain ⟨-, hle⟩ := h.sited.fits.checksum header true rfl
    unfold Ends EStateM.run Container.finish
    dsimp only
    -- A torn write could leave half a checksum; without one, a failure leaves the old one whole.
    rcases refreshChecksum_cases h.sited.backed (h.sited.writable hro) hle with
      hrun | ⟨e, after, -, hbroken, hrun⟩
    · unfold EStateM.run at hrun
      rw [hrun]
      exact ⟨h.refreshed, _, rfl⟩
    · obtain rfl := hbroken.eq hm
      unfold EStateM.run at hrun
      rw [hrun]
      have hfile : storage.file = file := h.file_eq
      exact ⟨h, hfile ▸ hbroken.not_serves⟩

/-- Where the host tears no write, a flush brings the checksum up to date or leaves it to the next
one. It does not fail if the host does all that it is asked. -/
theorem Tracked.flush_ends [medium : Medium] (hm : medium.Untorn)
    (h : Tracked layout file original n state) :
    Ends flush state fun r after => Tracked layout file original n after ∧
      (medium.Serves file → r = .ok ()) := by
  obtain ⟨⟨storage, container, readOnly, modified⟩, host⟩ := state
  cases modified with
  | false => exact ⟨h, fun _ => rfl⟩
  | true =>
    have hfinish := h.finish_ends hm
    unfold Ends at hfinish ⊢
    rw [run_flush_of_modified]
    cases hr : (Container.finish storage).run (container, host) with
    | error e after =>
      rw [hr] at hfinish
      exact ⟨hfinish.1, fun hserves => absurd hserves hfinish.2⟩
    | ok _ after =>
      rw [hr] at hfinish
      obtain ⟨⟨envelope, inner⟩, host'⟩ := after
      obtain ⟨htracked, header, henvelope⟩ := hfinish
      obtain rfl : envelope = .diskCopy header false := henvelope
      dsimp only
      cases hsync : storage.sync host' with
      | ok _ => exact ⟨htracked.remodified false, fun _ => rfl⟩
      | error e =>
        refine ⟨htracked, fun hserves => ?_⟩
        have hfile : storage.file = file := h.file_eq
        rw [Storage.sync_of_serves (hfile ▸ hserves)] at hsync
        cases hsync

/-- Nothing is changed before the first block is written. -/
theorem Tracked.contents_eq (h : Tracked layout file original 0 state) :
    state.2.contents file = original := by
  obtain ⟨header, stale, henvelope⟩ := h.exists_header
  cases stale with
  | false => exact h.file_eq ▸ (h.of_not_stale henvelope).1 rfl
  | true => exact absurd (h.of_stale henvelope).2.2 (Nat.lt_irrefl 0)

/-- A device that has nothing to bring up to date. -/
theorem Tracked.settled (h : Tracked layout file original n state)
    (hm : state.1.modified = false) :
    (n = 0 → state.2.contents file = original) ∧ (0 < n → InStep (state.2.contents file)) := by
  obtain ⟨header, stale, henvelope⟩ := h.exists_header
  cases stale with
  | false =>
    have hsettled := h.of_not_stale henvelope
    unfold contents at hsettled
    rwa [h.file_eq] at hsettled
  | true =>
    rw [(h.of_stale henvelope).1] at hm
    cases hm

end Device

namespace Device

variable {file : String} {original : ByteArray} {host : Host} {sound : Prop} {n : Nat}

/-! ## Whatever is done -/

/-- A file that was `original` before `n` blocks were written to it, with its checksum up to date. -/
structure Settled (file : String) (original : ByteArray) (sound : Prop) (n : Nat) (host : Host) :
    Prop where
  unchanged (h : n = 0) : host.contents file = original
  inStep (h : sound ∨ 0 < n) : InStep (host.contents file)
  /-- Nothing is logged when the file is opened again. -/
  silent [Medium] (h : sound ∨ 0 < n) (options : DeviceOptions) :
    Ends (openFile file options) host fun _ after => after = host

theorem openFile_silent [Medium] (h : InStep (host.contents file)) (options : DeviceOptions) :
    Ends (openFile file options) host fun _ after => after = host := by
  unfold openFile
  simp only [ends_bind, ends_ask]
  cases hs : Storage.openFile host file options.backing options.readOnly with
  | error e => exact trivial
  | ok storage =>
    obtain ⟨-, _, rfl⟩ := Storage.exists_of_openFile hs
    refine (Container.openFile_described _ host file options).mono ?_
    rintro r after ⟨hsilent, -⟩
    cases r with
    | ok container => exact hsilent h
    | error e => exact hsilent h

theorem exists_envelope {container : Container} (h : container.format = .diskCopy42) :
    ∃ header stale, container.envelope = .diskCopy header stale := by
  obtain ⟨envelope, layout⟩ := container
  cases envelope with
  | bare => cases layout <;> cases h
  | twoImg header => cases h
  | diskCopy header stale => exact ⟨header, stale, rfl⟩
  | davex => cases h

/-- A created image has no data and no checksum but zeros. -/
theorem run_create_diskCopy {blocks size : Nat} {before : Host} (options : DeviceOptions)
    (hsize : Format.diskCopy42.fileSize blocks = .ok size)
    (hfile : before.checkCreatable file = .ok ()) (hlimit : blocks * 512 < 0x100000000) :
    ∃ after, (create file .diskCopy42 blocks options).run before =
        .ok ⟨.ofSize file size options.backing false,
          ⟨.diskCopy ⟨Text.decodeLossy DiskCopy.newName, blocks * 512, 0, 0⟩ false,
            .sequential ⟨84, blocks⟩⟩, false, true⟩ after ∧
      Headed (before.replace file (zeros size)) (.ofSize file size options.backing false) 84
        (DiskCopy.newHeader blocks) after := by
  have hle : 84 ≤ size := by
    rw [Image.diskCopy_size hsize]
    omega
  have hzero (k : Nat) : byteAt ((before.replace file (zeros size)).contents file) k = 0 := by
    rw [Host.contents_replace_self, byteAt_zeros]
  obtain ⟨after, hrun, hheaded⟩ := run_write_head (DiskCopy.newHeader blocks)
    (backed_replace before file size options.backing) rfl hle hzero
  refine ⟨after, ?_, hheaded⟩
  have hfileSize : (Action.ofExcept (Format.diskCopy42.fileSize blocks) : Action Host Nat).run before =
      .ok size before := by
    rw [hsize]
    rfl
  rw [create, run_bind_of_ok hfileSize, run_bind_of_ok (run_createFile hfile size _)]
  have hcontainer : (Container.create .diskCopy42 (.ofSize file size options.backing false) blocks
      options.nibble).run (before.replace file (zeros size)) =
        .ok ⟨.diskCopy ⟨Text.decodeLossy DiskCopy.newName, blocks * 512, 0, 0⟩ false,
          .sequential ⟨84, blocks⟩⟩ after := by
    rw [Container.create, Container.createDiskCopy, if_pos hlimit]
    exact run_bind_of_ok hrun _
  rw [run_bind_of_ok hcontainer]
  rfl

theorem tracked_of_create {blocks : Nat} {options : DeviceOptions} {before : Host}
    {device : Device} (h : (create file .diskCopy42 blocks options).run before = .ok device host) :
    InStep (host.contents file) ∧
      ∃ layout, Tracked layout file (host.contents file) 0 (device, host) := by
  obtain ⟨size, -, hsize, hfile, hlimit, -⟩ := exists_of_create h
  obtain ⟨after, hrun, hheaded⟩ := run_create_diskCopy options hsize hfile (hlimit rfl)
  rw [hrun] at h
  cases h
  have hle : 84 + blocks * 512 ≤ size := Nat.le_of_eq (Image.diskCopy_size hsize).symm
  have hheader {offset : Nat} (hoffset : offset + 4 ≤ 84) :
      beNat (host.contents file) offset 4 = beNat (DiskCopy.newHeader blocks).data offset 4 :=
    beNat_congr fun i _ _ => hheaded.head_eq (by omega)
  obtain ⟨hsizeNumber, -, hsumNumber, -⟩ := DiskCopy.numbers_newHeader (hlimit rfl)
  have hnumbers : beNat (host.contents file) 0x40 4 = blocks * 512 ∧
      beNat (host.contents file) DiskCopy.checksumOffset 4 = 0 :=
    ⟨(hheader (by decide)).trans hsizeNumber, (hheader (by decide)).trans hsumNumber⟩
  -- The checksum of zeros is zero, which is what the new header has.
  have hdata : DiskCopy.checksum (slice (host.contents file) 84 (blocks * 512)) = 0 :=
    DiskCopy.checksum_of_zeros fun i => by
      rw [byteAt_slice]
      split
      · exact hheaded.zero (Nat.le_add_right _ _)
      · rfl
  refine ⟨?_, ⟨84, blocks⟩, ⟨rfl, ⟨Nat.le_refl _, fun _ => hle, ?_⟩,
    (backed_replace before file size options.backing).kept hheaded.kept, fun _ => rfl⟩, rfl,
    ⟨_, _, rfl⟩, ?_, nofun, fun _ => ⟨fun _ => rfl, nofun⟩⟩
  · unfold InStep
    rw [hnumbers.1, hdata]
    exact hnumbers.2
  · rintro header stale ⟨⟩
    exact ⟨Nat.le_refl _, hle⟩
  · rintro header stale ⟨⟩
    exact hnumbers.1

end Device

end Diskette
