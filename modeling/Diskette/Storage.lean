import Diskette.Medium

/-!
# Storages

A storage is an open file: it is reached through a mapping of the whole file or through a
descriptor, and it remembers the size that the file had when it was opened. Every access is checked
against that size. What is written through a mapping is in the file at once; through a descriptor
the host may stop after a part of it.

Another program may cut the file. A descriptor then reads no more than is left, and writes past the
end. The bytes of a mapping that are gone must not be touched, and `FileFault.lostMapping` stands for
the end of the program that does.

* `read_eq_ok_iff`: a read succeeds exactly if the range lies in the image and in the file.
* `run_write_eq_ok_iff`: a write succeeds exactly if the storage and the host take it.
* `of_run_write_eq_error`: what is left of a write that fails.
-/

namespace Diskette

/-- How the bytes of an open file are reached. -/
inductive Backing where
  | mapped
  | descriptor
  deriving DecidableEq, Repr

/-- An open file. -/
structure Storage where
  /-- The name of the file. -/
  file : String
  /-- The size of the file when it was opened. -/
  size : Nat
  readOnly : Bool
  mapped : Bool
  deriving DecidableEq, Repr

namespace Storage

/-- A storage on a file of `size` bytes. An empty file cannot be mapped. -/
def ofSize (file : String) (size : Nat) (backing : Backing) (readOnly : Bool) : Storage :=
  ⟨file, size, readOnly, backing = .mapped ∧ 0 < size⟩

/-- A storage on a file that is open: its size is asked for, and it is mapped if it is to be. -/
def ofFile [Medium] (host : Host) (file : String) (backing : Backing) (readOnly : Bool) :
    Except DiskError Storage := do
  Medium.serve host .inspect file
  let storage := ofSize file (host.contents file).size backing readOnly
  if storage.mapped then
    Medium.serve host .map file
  return storage

/-- Opens a file. One that may not be written is opened for reading only. -/
def openFile [Medium] (host : Host) (file : String) (backing : Backing) (readOnly : Bool) :
    Except DiskError Storage :=
  let opened (readOnly : Bool) : Except DiskError Storage := do
    host.checkReadable file
    ofFile host file backing readOnly
  if readOnly then opened true
  else
    match host.checkWritable file with
    | .ok () => opened false
    | .error (.file .permissionDenied) => opened true
    | .error e => .error e

/-- Creates a file of `size` zeros, or makes an existing one that. The file is emptied before
anything that the host may refuse. -/
def createFile [Medium] (file : String) (size : Nat) (backing : Backing) :
    Action Host Storage := do
  Action.ask fun host => host.checkCreatable file
  modify fun host => host.replace file .empty
  Action.ask fun host => Medium.serve host .resize file
  modify fun host => host.resize file size
  Action.ask fun host => ofFile host file backing false

/-- Checks that `len` bytes from `offset` on lie in the image. -/
def checkRange (storage : Storage) (offset len : Nat) : Except DiskError Unit :=
  if offset + len ≤ storage.size then .ok ()
  else .error (.file (.outOfRange offset len storage.size))

/-- Checks that the storage takes `len` bytes at `offset`. -/
def checkWrite (storage : Storage) (offset len : Nat) : Except DiskError Unit :=
  if storage.readOnly then .error .readOnly else storage.checkRange offset len

/-- Checks that the file still has the `len` bytes from `offset` on. -/
def checkPresent (storage : Storage) (host : Host) (offset len : Nat) : Except DiskError Unit :=
  if len = 0 ∨ offset + len ≤ (host.contents storage.file).size then .ok ()
  else .error (.file (if storage.mapped then .lostMapping else .shortRead))

/-- The `len` bytes from `offset` on. The file may have been cut since it was opened, and bytes
that it no longer has cannot be read. -/
def read (storage : Storage) (host : Host) (offset len : Nat) : Except DiskError ByteArray := do
  storage.checkRange offset len
  storage.checkPresent host offset len
  return slice (host.contents storage.file) offset len

/-- Writes all of `data` through the descriptor, unless the host stops before its end. -/
def writeAll [Medium] (storage : Storage) (offset : Nat) (data : ByteArray) :
    Action Host Unit := fun host =>
  match Medium.write host storage.file offset data with
  | none => .ok () (host.writeAt storage.file offset data)
  | some fault =>
    .error (.file (.medium fault.message))
      (host.writeAt storage.file offset (slice data 0 fault.written))

/-- Puts `data` into the mapping. -/
def putMapped (storage : Storage) (offset : Nat) (data : ByteArray) : Action Host Unit := do
  Action.ask fun host => storage.checkPresent host offset data.size
  modify fun host => host.writeAt storage.file offset data

/-- Writes `data` at `offset`. -/
def write [Medium] (storage : Storage) (offset : Nat) (data : ByteArray) : Action Host Unit := do
  Action.ofExcept (storage.checkWrite offset data.size)
  if storage.mapped then
    storage.putMapped offset data
  else
    storage.writeAll offset data

/-- The `len` bytes from `offset` on as a part of the mapping, if there is a mapping. -/
def mappedSlice? (storage : Storage) (host : Host) (offset len : Nat) :
    Except DiskError (Option ByteArray) := do
  storage.checkRange offset len
  if storage.mapped then
    storage.checkPresent host offset len
    return some (slice (host.contents storage.file) offset len)
  else
    return none

/-- Writes `data` through the mapping; `false` if there is none. -/
def writeMapped (storage : Storage) (offset : Nat) (data : ByteArray) : Action Host Bool := do
  Action.ofExcept (storage.checkWrite offset data.size)
  if storage.mapped then
    storage.putMapped offset data
  return storage.mapped

/-- Brings what was written to the medium. A storage that must not be written has nothing to bring
there. -/
def sync [Medium] (storage : Storage) (host : Host) : Except DiskError Unit :=
  if storage.readOnly then .ok () else Medium.serve host .sync storage.file

/-- Brings a range to the medium. -/
def syncRange [Medium] (storage : Storage) (host : Host) (offset len : Nat) :
    Except DiskError Unit :=
  if storage.readOnly then .ok ()
  else do
    storage.checkRange offset len
    Medium.serve host .sync storage.file

/-! ## When an access succeeds -/

theorem checkRange_eq_ok_iff {storage : Storage} {offset len : Nat} :
    storage.checkRange offset len = .ok () ↔ offset + len ≤ storage.size := by
  unfold checkRange
  split
  · simp_all
  · simp_all

theorem checkPresent_eq_ok_iff {storage : Storage} {host : Host} {offset len : Nat} :
    storage.checkPresent host offset len = .ok () ↔
      (len = 0 ∨ offset + len ≤ (host.contents storage.file).size) := by
  unfold checkPresent
  split
  · simp_all
  · simp_all

theorem read_eq_ok_iff {storage : Storage} {host : Host} {offset len : Nat} {data : ByteArray} :
    storage.read host offset len = .ok data ↔
      offset + len ≤ storage.size ∧
      (len = 0 ∨ offset + len ≤ (host.contents storage.file).size) ∧
      data = slice (host.contents storage.file) offset len := by
  rw [← checkRange_eq_ok_iff, ← checkPresent_eq_ok_iff]
  unfold read
  cases storage.checkRange offset len with
  | error e => simp [bind, Except.bind]
  | ok =>
    cases storage.checkPresent host offset len with
    | error e => simp [bind, Except.bind]
    | ok => simp [bind, Except.bind, pure, Except.pure, eq_comm]

/-- Whether the host takes a write that the storage takes. -/
def Takes [Medium] (storage : Storage) (host : Host) (offset : Nat) (data : ByteArray) : Prop :=
  if storage.mapped then data.size = 0 ∨ offset + data.size ≤ (host.contents storage.file).size
  else Medium.write host storage.file offset data = none

/-- What is left of a write through the descriptor that the host broke off: a part of the data is
written. -/
structure Broken [Medium] (storage : Storage) (host : Host) (offset : Nat) (data : ByteArray)
    (after : Host) : Prop where
  mapped_eq : storage.mapped = false
  le_size : offset + data.size ≤ storage.size
  exists_fault : ∃ fault, Medium.write host storage.file offset data = some fault ∧
    after = host.writeAt storage.file offset (slice data 0 fault.written)

section

variable [Medium] {storage : Storage} {host after : Host} {offset : Nat} {data : ByteArray}

omit [Medium] in
theorem checkWrite_eq_ok_iff {len : Nat} :
    storage.checkWrite offset len = .ok () ↔
      storage.readOnly = false ∧ offset + len ≤ storage.size := by
  unfold checkWrite
  cases storage.readOnly with
  | true => simp
  | false => simp [checkRange_eq_ok_iff]

private theorem run_write_of_check (h : storage.checkWrite offset data.size = .ok ()) :
    (storage.write offset data).run host =
      (if storage.mapped then storage.putMapped offset data
        else storage.writeAll offset data).run host := by
  simp [write, EStateM.run, bind, EStateM.bind, Action.ofExcept, h]

omit [Medium] in
theorem run_putMapped (storage : Storage) (offset : Nat) (data : ByteArray) (host : Host) :
    (storage.putMapped offset data).run host =
      match storage.checkPresent host offset data.size with
      | .ok () => .ok () (host.writeAt storage.file offset data)
      | .error e => .error e host := by
  rw [putMapped, EStateM.run_bind, Action.run_ask]
  cases storage.checkPresent host offset data.size with
  | ok _ => rfl
  | error e => rfl

theorem run_write_eq_ok_iff :
    (storage.write offset data).run host = .ok () after ↔
      storage.readOnly = false ∧ offset + data.size ≤ storage.size ∧
        storage.Takes host offset data ∧ after = host.writeAt storage.file offset data := by
  rw [← and_assoc, ← checkWrite_eq_ok_iff]
  cases hcheck : storage.checkWrite offset data.size with
  | error e => simp [write, EStateM.run, bind, EStateM.bind, Action.ofExcept, hcheck]
  | ok =>
    rw [run_write_of_check hcheck]
    unfold Takes
    cases storage.mapped with
    | true =>
      simp only [if_true, run_putMapped, true_and]
      rw [← checkPresent_eq_ok_iff]
      cases storage.checkPresent host offset data.size <;> simp [eq_comm]
    | false =>
      simp only [Bool.false_eq_true, if_false, true_and]
      unfold EStateM.run writeAll
      cases Medium.write host storage.file offset data <;> simp [eq_comm]

theorem run_write_of_fault {fault : WriteFault} (hm : storage.mapped = false)
    (hw : storage.readOnly = false) (hle : offset + data.size ≤ storage.size)
    (h : Medium.write host storage.file offset data = some fault) :
    (storage.write offset data).run host = .error (.file (.medium fault.message))
      (host.writeAt storage.file offset (slice data 0 fault.written)) := by
  rw [run_write_of_check (checkWrite_eq_ok_iff.mpr ⟨hw, hle⟩), hm]
  simp [EStateM.run, writeAll, h]

/-- A write that the storage takes fails only because bytes of a mapping are gone, or because the host
broke it off. -/
theorem of_run_write_eq_error_of_check {e : DiskError}
    (hcheck : storage.checkWrite offset data.size = .ok ())
    (h : (storage.write offset data).run host = .error e after) :
    storage.mapped = true ∧ e = .file .lostMapping ∧ after = host ∨
      e.IsOutage ∧ storage.Broken host offset data after := by
  rw [run_write_of_check hcheck] at h
  obtain ⟨-, hle⟩ := checkWrite_eq_ok_iff.mp hcheck
  -- A mapping writes to memory, where a host does not fail; a descriptor asks the host.
  cases hm : storage.mapped with
  | true =>
    simp only [hm, if_true, run_putMapped] at h
    split at h
    · cases h
    · next e' hpresent =>
      cases h
      unfold checkPresent at hpresent
      rw [hm] at hpresent
      split at hpresent
      · cases hpresent
      · cases hpresent
        exact .inl ⟨rfl, rfl, rfl⟩
  | false =>
    simp only [hm, Bool.false_eq_true, if_false] at h
    unfold EStateM.run writeAll at h
    split at h
    · cases h
    · next fault hfault =>
      cases h
      exact .inr ⟨DiskError.isOutage_medium _, hm, hle, fault, hfault, rfl⟩

/-- A write that fails has changed nothing, unless the host broke it off. -/
theorem of_run_write_eq_error {e : DiskError}
    (h : (storage.write offset data).run host = .error e after) :
    ¬ e.IsOutage ∧ after = host ∨ e.IsOutage ∧ storage.Broken host offset data after := by
  cases hcheck : storage.checkWrite offset data.size with
  | error e' =>
    have hrun : (storage.write offset data).run host = .error e' host := by
      simp [write, EStateM.run, bind, EStateM.bind, Action.ofExcept, hcheck]
    rw [hrun] at h
    cases h
    refine .inl ⟨?_, rfl⟩
    rintro ⟨message, rfl⟩
    unfold checkWrite checkRange at hcheck
    split at hcheck
    · cases hcheck
    · split at hcheck <;> cases hcheck
  | ok =>
    rcases of_run_write_eq_error_of_check hcheck h with ⟨-, rfl, hsame⟩ | hbroken
    · exact .inl ⟨nofun, hsame⟩
    · exact .inr hbroken

end

end Storage

end Diskette
