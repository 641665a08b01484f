import Diskette.Proofs.Device.InStep
import Diskette.Proofs.Device.RoundTrip
import Diskette.Proofs.Header.Checksum

/-!
# Altered DiskCopy 4.2 files

Everything that opening a DiskCopy 4.2 file looks at, besides its size, is in the first 84 bytes, and
the data only for its checksum. So a file whose data was altered is opened as the file before it was,
and if only one word was altered, a warning is logged.

* `HeadKept`: files of one size with the same header.
* `run_openDiskCopy_eq_ok_iff`: when a file is opened as a DiskCopy 4.2 file, and what is logged.
* `format_of_openAs`: what is opened as an image of a format is one.
* `WordAltered`: a file before and after one word of its data was altered.
* `one_word_detected`: the checksum detects that, and so does whoever opens the file.
-/

namespace Diskette

open Diskette.Action Header

variable {storage : Storage} {host altered after : Host} {file : String}

/-! ## The same header -/

/-- Two files of one size with the same first 84 bytes, which can be opened alike. -/
structure HeadKept (file : String) (host altered : Host) : Prop where
  access_eq : altered.access? file = host.access? file
  size_eq : (altered.contents file).size = (host.contents file).size
  byte_eq {i : Nat} (h : i < DiskCopy.size) :
    byteAt (altered.contents file) i = byteAt (host.contents file) i

theorem HeadKept.refl (file : String) (host : Host) : HeadKept file host host :=
  ⟨rfl, rfl, fun _ => rfl⟩

theorem HeadKept.openFile_eq (h : HeadKept file host altered) (backing : Backing) (readOnly : Bool) :
    Storage.openFile altered file backing readOnly = Storage.openFile host file backing readOnly := by
  unfold Storage.openFile
  rw [Host.checkWritable_congr h.access_eq, Host.checkReadable_congr h.access_eq]
  simp only [Storage.ofFile_eq, h.size_eq]

theorem HeadKept.read_eq (h : HeadKept storage.file host altered) {n : Nat} (hn : n ≤ DiskCopy.size) :
    storage.read altered 0 n = storage.read host 0 n := by
  have hslice : slice (altered.contents storage.file) 0 n = slice (host.contents storage.file) 0 n :=
    slice_congr h.size_eq fun i _ hi => h.byte_eq (Nat.lt_of_lt_of_le (Nat.zero_add n ▸ hi) hn)
  exact Storage.read_congr h.size_eq hslice

theorem HeadKept.readHead_eq (h : HeadKept storage.file host altered) (format : Format) :
    Container.readHead format DiskCopy.size storage altered =
      Container.readHead format DiskCopy.size storage host := by
  unfold Container.readHead
  rw [h.read_eq (Nat.le_refl _)]

theorem HeadKept.detectFormat_eq (h : HeadKept storage.file host altered) (path : String) :
    Container.detectFormat storage altered path = Container.detectFormat storage host path := by
  unfold Container.detectFormat
  rw [h.read_eq (Nat.min_le_right _ _)]

/-! ## DiskCopy 4.2 files -/

namespace Container

/-- A file is opened as a DiskCopy 4.2 file if its header can be parsed and its data read. A wrong
checksum is logged. -/
theorem run_openDiskCopy_eq_ok_iff {container : Container} :
    (openDiskCopy storage).run host = .ok container after ↔ ∃ head header data,
      readHead .diskCopy42 DiskCopy.size storage host = .ok head ∧
      DiskCopy.parse head storage.size = .ok header ∧
      storage.read host DiskCopy.size header.dataSize = .ok data ∧
      container = ⟨.diskCopy header false, .sequential ⟨DiskCopy.size, header.dataSize / 512⟩⟩ ∧
      after = if DiskCopy.checksum data = header.dataChecksum then host
        else host.warn (.dataChecksum header.dataChecksum (DiskCopy.checksum data)) := by
  constructor
  · intro h
    obtain ⟨head, _, hrun, h⟩ := exists_of_run_bind h
    obtain ⟨hhead, hsame⟩ := run_ask_eq_ok_iff.mp hrun
    rw [hsame] at h
    obtain ⟨header, _, hrun, h⟩ := exists_of_run_bind h
    obtain ⟨hparse, hsame⟩ := run_ofExcept_eq_ok_iff.mp hrun
    rw [hsame] at h
    obtain ⟨data, _, hrun, h⟩ := exists_of_run_bind h
    obtain ⟨hdata, hsame⟩ := run_ask_eq_ok_iff.mp hrun
    rw [hsame] at h
    refine ⟨head, header, data, hhead, hparse, hdata, ?_⟩
    dsimp only at h
    -- Both ways to go on succeed, and they differ by the warning.
    split at h
    · next hne =>
      cases h
      exact ⟨rfl, (if_neg hne).symm⟩
    · next heq =>
      cases h
      exact ⟨rfl, (if_pos (not_not.mp heq)).symm⟩
  · rintro ⟨head, header, data, hhead, hparse, hdata, rfl, rfl⟩
    have hread : (ask fun host => storage.read host DiskCopy.size header.dataSize :
        Action Host ByteArray).run host = .ok data host := run_ask_of_ok hdata
    refine (run_bind_of_ok (run_ask_of_ok hhead) _).trans ?_
    refine (run_bind_of_ok (run_ofExcept_eq_ok_iff.mpr ⟨hparse, rfl⟩) _).trans ?_
    refine (run_bind_of_ok hread _).trans ?_
    dsimp only
    by_cases heq : DiskCopy.checksum data = header.dataChecksum
    · rw [if_pos heq, if_neg (not_not.mpr heq)]
      rfl
    · rw [if_neg heq, if_pos heq]
      rfl

/-- What is opened as an image of a format is one of that format. -/
theorem format_of_openAs {format : Format} {policy : Gcr.SyncPolicy} {container : Container}
    (h : (openAs format storage policy).run host = .ok container after) :
    container.format = format := by
  cases format with
  | proDosOrder =>
    obtain ⟨hr, -⟩ := run_ofExcept_eq_ok_iff.mp h
    cases hl : Layout.Sequential.ofFileSize storage.size <;> rw [hl] at hr <;> cases hr
    rfl
  | dosOrder =>
    obtain ⟨hr, -⟩ := run_ofExcept_eq_ok_iff.mp h
    cases hl : Layout.Interleaved.ofFileSize storage.size <;> rw [hl] at hr <;> cases hr
    rfl
  | nibble =>
    obtain ⟨hr, -⟩ := run_ofExcept_eq_ok_iff.mp h
    cases hl : Layout.Nibble.tracksIn storage.size <;> rw [hl] at hr <;> cases hr
    rfl
  | twoImg =>
    obtain ⟨header, henvelope⟩ := envelope_of_openTwoImg (run_ask_eq_ok_iff.mp h).1
    rw [Container.format, henvelope]
  | diskCopy42 =>
    obtain ⟨_, _, _, -, -, -, rfl, -⟩ := run_openDiskCopy_eq_ok_iff.mp h
    rfl
  | davex => rw [Container.format, envelope_of_openDavex (run_ask_eq_ok_iff.mp h).1]

/-- Only what is opened as a DiskCopy 4.2 file has the envelope of one. -/
theorem eq_diskCopy42_of_openAs {format : Format} {policy : Gcr.SyncPolicy} {container : Container}
    {header : DiskCopy} {stale : Bool}
    (h : (openAs format storage policy).run host = .ok container after)
    (henvelope : container.envelope = .diskCopy header stale) : format = .diskCopy42 := by
  rw [← format_of_openAs h, Container.format, henvelope]

/-- With the same header a file is opened as a DiskCopy 4.2 file again. -/
theorem run_openFile_of_headKept {path : String} {options : DeviceOptions} {container : Container}
    {header : DiskCopy} {stale : Bool}
    (h : (openFile storage path options).run host = .ok container after)
    (henvelope : container.envelope = .diskCopy header stale)
    (hkept : HeadKept storage.file host altered) :
    (openDiskCopy storage).run host = .ok container after ∧
      (openFile storage path options).run altered = (openDiskCopy storage).run altered := by
  unfold openFile at h ⊢
  cases hformat : options.format with
  | some format =>
    rw [hformat] at h
    obtain rfl := eq_diskCopy42_of_openAs h henvelope
    exact ⟨h, rfl⟩
  | none =>
    rw [hformat] at h
    obtain ⟨format, _, hrun, h⟩ := exists_of_run_bind h
    obtain ⟨hdetected, hsame⟩ := run_ask_eq_ok_iff.mp hrun
    rw [hsame] at h
    obtain rfl := eq_diskCopy42_of_openAs h henvelope
    have hagain : (ask fun host => detectFormat storage host path : Action Host Format).run altered =
        .ok .diskCopy42 altered := run_ask_of_ok ((hkept.detectFormat_eq path).trans hdetected)
    exact ⟨h, run_bind_of_ok hagain _⟩

end Container

/-! ## One word altered -/

/-- A file before and after one word of its `size` bytes of data was altered. -/
structure WordAltered (file : String) (size : Nat) (host altered : Host) : Prop where
  access_eq : altered.access? file = host.access? file
  size_eq : (altered.contents file).size = (host.contents file).size
  /-- Neither the header was altered nor what is behind the data. -/
  byte_eq {i : Nat} (h : i < DiskCopy.size ∨ DiskCopy.size + size ≤ i) :
    byteAt (altered.contents file) i = byteAt (host.contents file) i
  data : DiskCopy.OneWordApart (slice (host.contents file) DiskCopy.size size)
    (slice (altered.contents file) DiskCopy.size size)

theorem WordAltered.headKept {size : Nat} (h : WordAltered file size host altered) :
    HeadKept file host altered :=
  ⟨h.access_eq, h.size_eq, fun hi => h.byte_eq (.inl hi)⟩

/-- A file whose checksum was right and of whose data one word was altered is opened as it was, and a
warning is logged. -/
theorem Container.run_openDiskCopy_altered {container : Container} {header : DiskCopy} {stale : Bool}
    (h : (openDiskCopy storage).run host = .ok container after)
    (henvelope : container.envelope = .diskCopy header stale)
    (hstep : InStep (host.contents storage.file))
    (haltered : WordAltered storage.file header.dataSize host altered) :
    ∃ computed,
      computed =
        DiskCopy.checksum (slice (altered.contents storage.file) DiskCopy.size header.dataSize) ∧
      computed ≠ header.dataChecksum ∧ (openDiskCopy storage).run altered =
        .ok container (altered.warn (.dataChecksum header.dataChecksum computed)) := by
  obtain ⟨head, header', data, hhead, hparse, hdata, rfl, -⟩ := run_openDiskCopy_eq_ok_iff.mp h
  obtain rfl : header' = header := by
    cases henvelope
    rfl
  obtain ⟨hle, hread, rfl⟩ := Storage.read_eq_ok_iff.mp hdata
  -- The checksum in the header is that of the data before.
  obtain ⟨hsize, hsum⟩ := parse_readHead hhead hparse
  have hright : header'.dataChecksum = DiskCopy.checksum
      (slice (host.contents storage.file) DiskCopy.size header'.dataSize) := by
    rw [hsum, hstep, hsize, UInt32.ofNat_toNat]
  have hwrong := haltered.data.checksum_ne
  rw [← hright] at hwrong
  have hdata' : storage.read altered DiskCopy.size header'.dataSize =
      .ok (slice (altered.contents storage.file) DiskCopy.size header'.dataSize) :=
    Storage.read_eq_ok_iff.mpr ⟨hle, by rwa [haltered.size_eq], rfl⟩
  have hcontainer := run_openDiskCopy_eq_ok_iff.mpr ⟨head, header', _,
    (haltered.headKept.readHead_eq _).trans hhead, hparse, hdata', rfl, rfl⟩
  rw [if_neg hwrong] at hcontainer
  exact ⟨_, rfl, hwrong, hcontainer⟩

/-- So it is with a device on such a file. -/
theorem Device.run_openFile_altered {options : DeviceOptions} {device : Device} {header : DiskCopy}
    {stale : Bool} (h : (openFile file options).run host = .ok device after)
    (henvelope : device.container.envelope = .diskCopy header stale)
    (hstep : InStep (host.contents file))
    (haltered : WordAltered file header.dataSize host altered) :
    ∃ computed,
      computed = DiskCopy.checksum (slice (altered.contents file) DiskCopy.size header.dataSize) ∧
      computed ≠ header.dataChecksum ∧ (openFile file options).run altered =
        .ok device (altered.warn (.dataChecksum header.dataChecksum computed)) := by
  obtain ⟨storage, container, hstorage, hcontainer, rfl⟩ := exists_of_openFile h
  obtain rfl : storage.file = file := by
    obtain ⟨-, _, rfl⟩ := Storage.exists_of_openFile hstorage
    rfl
  obtain ⟨hopened, hagain⟩ :=
    Container.run_openFile_of_headKept hcontainer henvelope haltered.headKept
  obtain ⟨computed, hcomputed, hwrong, hdetected⟩ :=
    Container.run_openDiskCopy_altered hopened henvelope hstep haltered
  have hopen : (ask fun host => Storage.openFile host storage.file options.backing options.readOnly :
      Action Host Storage).run altered = .ok storage altered :=
    run_ask_of_ok ((haltered.headKept.openFile_eq ..).trans hstorage)
  refine ⟨computed, hcomputed, hwrong, (run_bind_of_ok hopen _).trans ?_⟩
  exact (run_bind_of_ok (hagain.trans hdetected) _).trans rfl

/-- The checksum detects a change of one word in data of any length. So a DiskCopy 4.2 file whose
checksum was right is opened with a warning once one word of its data was altered, by whoever opens
it as such a file and by a device that finds out what it is. -/
theorem Device.one_word_detected :
    (∀ a b, DiskCopy.OneWordApart a b → DiskCopy.checksum b ≠ DiskCopy.checksum a) ∧
    (∀ storage host altered container after header stale,
      (Container.openDiskCopy storage).run host = .ok container after →
      container.envelope = .diskCopy header stale →
      InStep (host.contents storage.file) →
      WordAltered storage.file header.dataSize host altered →
      ∃ computed,
        computed =
          DiskCopy.checksum (slice (altered.contents storage.file) DiskCopy.size header.dataSize) ∧
        computed ≠ header.dataChecksum ∧ (Container.openDiskCopy storage).run altered =
          .ok container (altered.warn (.dataChecksum header.dataChecksum computed))) ∧
    ∀ file options host altered device after header stale,
      (openFile file options).run host = .ok device after →
      device.container.envelope = .diskCopy header stale →
      InStep (host.contents file) → WordAltered file header.dataSize host altered →
      ∃ computed,
        computed = DiskCopy.checksum (slice (altered.contents file) DiskCopy.size header.dataSize) ∧
        computed ≠ header.dataChecksum ∧ (openFile file options).run altered =
          .ok device (altered.warn (.dataChecksum header.dataChecksum computed)) :=
  ⟨fun _ _ h => h.checksum_ne,
    fun _ _ _ _ _ _ _ h henvelope hstep haltered =>
      Container.run_openDiskCopy_altered h henvelope hstep haltered,
    fun _ _ _ _ _ _ _ _ h henvelope hstep haltered =>
      run_openFile_altered h henvelope hstep haltered⟩

/-- The data of a device that was opened is in the file. -/
theorem Device.dataSize_of_openFile {options : DeviceOptions} {device : Device} {header : DiskCopy}
    {stale : Bool} (h : (openFile file options).run host = .ok device after)
    (henvelope : device.container.envelope = .diskCopy header stale) :
    0 < header.dataSize ∧ DiskCopy.size + header.dataSize ≤ (host.contents file).size := by
  obtain ⟨storage, container, hstorage, hcontainer, rfl⟩ := exists_of_openFile h
  obtain ⟨hopened, -⟩ := Container.run_openFile_of_headKept hcontainer henvelope (.refl _ _)
  obtain ⟨_, _, _, -, hparse, -, rfl, -⟩ := Container.run_openDiskCopy_eq_ok_iff.mp hopened
  cases henvelope
  obtain ⟨hpos, hle⟩ := Container.diskCopy_dataSize_le hparse
  obtain ⟨-, _, rfl⟩ := Storage.exists_of_openFile hstorage
  exact ⟨Nat.lt_of_lt_of_le (by decide) hpos, hle⟩

/-- Another first byte of the data is one word altered. -/
theorem wordAltered_writeAt {size : Nat} {value : UInt8} (hsize : 0 < size)
    (hle : DiskCopy.size + size ≤ (host.contents file).size)
    (hne : value ≠ byteAt (host.contents file) DiskCopy.size) :
    WordAltered file size host (host.writeAt file DiskCopy.size ⟨#[value]⟩) := by
  have hfile : (host.find? file).isSome := Host.isSome_find?_of_pos (by omega)
  have hone : (⟨#[value]⟩ : ByteArray).size = 1 := rfl
  have hbyte (i : Nat) : byteAt ((host.writeAt file DiskCopy.size ⟨#[value]⟩).contents file) i =
      if i = DiskCopy.size then value else byteAt (host.contents file) i := by
    rw [Host.contents_writeAt_self _ _ hfile, byteAt_overwrite, hone]
    split_ifs with hin heq heq
    · rw [heq, Nat.sub_self]
      rfl
    · omega
    · omega
    · rfl
  have hsizes : ((host.writeAt file DiskCopy.size ⟨#[value]⟩).contents file).size =
      (host.contents file).size := by
    rw [Host.contents_writeAt_self _ _ hfile, size_overwrite, hone, if_neg Nat.one_ne_zero]
    omega
  have hslice (i : Nat) (hi : i ≠ 0) :
      byteAt (slice ((host.writeAt file DiskCopy.size ⟨#[value]⟩).contents file) DiskCopy.size size) i =
        byteAt (slice (host.contents file) DiskCopy.size size) i := by
    have hother : DiskCopy.size + i ≠ DiskCopy.size := by omega
    rw [byteAt_slice, byteAt_slice, hbyte, if_neg hother]
  refine ⟨Host.access?_writeAt .., hsizes, fun hi => ?_, ?_, 0, ?_, fun i hi => ?_⟩
  · rw [hbyte, if_neg (by omega)]
  · rw [size_slice, size_slice, hsizes]
  · intro heq
    -- The low bytes of the word are the same, so the high ones are too.
    have hnumber := congrArg UInt32.toNat heq
    rw [DiskCopy.toNat_wordAt, DiskCopy.toNat_wordAt] at hnumber
    simp only [beNat, hslice 1 Nat.one_ne_zero, Nat.mul_zero, Nat.zero_add, byteAt_slice, if_pos hsize,
      Nat.add_zero, hbyte, if_true] at hnumber
    exact hne (UInt8.toNat_inj.mp (by omega))
  · by_contra hi0
    refine hi ?_
    rw [DiskCopy.wordAt, DiskCopy.wordAt, hslice _ (by omega), hslice _ (by omega)]

/-- An odd number of bytes of which the last one is altered, and an image of one block that is created
on an empty host, with its first byte set to one. -/
theorem Device.one_word_detected_created :
    DiskCopy.checksum ⟨#[1, 2, 4]⟩ ≠ DiskCopy.checksum ⟨#[1, 2, 3]⟩ ∧
    ∃ created host device header stale,
      (create "disk.dc42" .diskCopy42 1 {}).run .empty = .ok created host ∧
      (openFile "disk.dc42" { format := some .diskCopy42 }).run host = .ok device host ∧
      device.container.envelope = .diskCopy header stale ∧
      ∃ computed, computed ≠ header.dataChecksum ∧
        (Container.openDiskCopy device.storage).run (host.writeAt "disk.dc42" DiskCopy.size ⟨#[1]⟩) =
          .ok device.container ((host.writeAt "disk.dc42" DiskCopy.size ⟨#[1]⟩).warn
            (.dataChecksum header.dataChecksum computed)) ∧
        (openFile "disk.dc42" { format := some .diskCopy42 }).run
            (host.writeAt "disk.dc42" DiskCopy.size ⟨#[1]⟩) =
          .ok device ((host.writeAt "disk.dc42" DiskCopy.size ⟨#[1]⟩).warn
            (.dataChecksum header.dataChecksum computed)) := by
  have hodd : DiskCopy.OneWordApart ⟨#[1, 2, 3]⟩ ⟨#[1, 2, 4]⟩ := by
    refine ⟨rfl, 1, by decide, fun i hi => ?_⟩
    by_contra hother
    refine hi ?_
    obtain rfl | hle : i = 0 ∨ 3 ≤ 2 * i := by omega
    · rfl
    · rw [DiskCopy.wordAt_of_size_le hle, DiskCopy.wordAt_of_size_le hle]
  refine ⟨one_word_detected.1 _ _ hodd, ?_⟩
  have hfile : Host.empty.checkCreatable "disk.dc42" = .ok () :=
    Host.checkCreatable_of_absent rfl (by simp)
  have hsize : Format.diskCopy42.fileSize 1 = .ok 596 := by decide
  obtain ⟨host, hcreate, hheaded⟩ := run_create_diskCopy {} hsize hfile (by decide)
  obtain ⟨hstep, -⟩ := tracked_of_create hcreate
  have hfresh := fresh_of_create (by decide) hcreate
  have hknown : ({ format := some .diskCopy42 } : DeviceOptions).format = some .diskCopy42 := rfl
  obtain ⟨device, after, hopen, hformat, -⟩ := run_openFile hfresh.image hfresh.access_eq hknown
  have hsame : after = host := (openFile_silent hstep _).of_ok hopen
  rw [hsame] at hopen
  obtain ⟨header, stale, henvelope⟩ := exists_envelope hformat
  obtain ⟨hpos, hle⟩ := dataSize_of_openFile hopen henvelope
  have hzero : byteAt (host.contents "disk.dc42") DiskCopy.size = 0 := hheaded.zero (Nat.le_refl _)
  -- The first byte of the data was zero, so one word of it is another one now.
  have haltered : WordAltered "disk.dc42" header.dataSize host
      (host.writeAt "disk.dc42" DiskCopy.size ⟨#[1]⟩) :=
    wordAltered_writeAt hpos hle (by rw [hzero]; decide)
  obtain ⟨computed, hcomputed, hne, hdetected⟩ := one_word_detected.2.2 "disk.dc42"
    { format := some .diskCopy42 } _ _ _ _ header stale hopen henvelope hstep haltered
  refine ⟨_, host, device, header, stale, hcreate, hopen, henvelope, computed, hne, ?_, hdetected⟩
  obtain ⟨storage, container, hstorage, hcontainer, rfl⟩ := exists_of_openFile hopen
  have hname : storage.file = "disk.dc42" := by
    obtain ⟨-, _, rfl⟩ := Storage.exists_of_openFile hstorage
    rfl
  obtain ⟨hopened, -⟩ := Container.run_openFile_of_headKept hcontainer henvelope (.refl _ _)
  rw [← hname] at hstep haltered
  obtain ⟨again, hagain, -, hdetected'⟩ := one_word_detected.2.1 storage host _ container host header
    stale hopened henvelope hstep haltered
  rw [hname, ← hcomputed] at hagain
  rwa [hname, hagain] at hdetected'

end Diskette
