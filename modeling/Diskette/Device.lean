import Diskette.Container
import Diskette.Disk

/-!
# Devices

A device is an open image: a storage and the container in it. It is an array of blocks of 512 bytes
that can be read and, unless something forbids it, written. What depends on the data, such as a
checksum, is brought up to date by `flush`.

* `run_flush_of_not_modified`: a device that was not written is flushed without effect.
-/

namespace Diskette

/-- An open image. -/
structure Device where
  storage : Storage
  container : Container
  readOnly : Bool
  /-- Whether something was written since the last flush. -/
  modified : Bool

namespace Device

/-- The number of blocks. -/
def blocks (device : Device) : Nat := device.container.blocks

/-- The format of the image. -/
def format (device : Device) : Format := device.container.format

/-- Opens an image. It is read-only if its file is, or if its header locks it. -/
def openFile [Medium] (file : String) (options : DeviceOptions) : Action Host Device := do
  let storage ← Action.ask fun host =>
    Storage.openFile host file options.backing options.readOnly
  let container ← Container.openFile storage file options
  return ⟨storage, container, storage.readOnly || container.locked, false⟩

/-- Creates an image of `blocks` blocks of zeros in place of any file of that name. -/
def create [Medium] (file : String) (format : Format) (blocks : Nat) (options : DeviceOptions) :
    Action Host Device := do
  let size ← Action.ofExcept (format.fileSize blocks)
  let storage ← Storage.createFile file size options.backing
  let container ← Container.create format storage blocks options.nibble
  return ⟨storage, container, false, true⟩

/-- Runs an action of the container. -/
@[inline] def onContainer {α : Type} (act : Storage → Action (Container × Host) α) :
    Action (Device × Host) α := fun (⟨storage, container, readOnly, modified⟩, host) =>
  match act storage (container, host) with
  | .ok a (container, host) => .ok a (⟨storage, container, readOnly, modified⟩, host)
  | .error e (container, host) => .error e (⟨storage, container, readOnly, modified⟩, host)

/-- Sets whether something was written since the last flush. -/
def setModified (modified : Bool) : Action (Device × Host) Unit :=
  modify fun (device, host) => ({ device with modified }, host)

/-- The bytes of a block. -/
def read (block : Nat) : Action (Device × Host) Block := do
  Action.ask fun (device, _) => checkBlock block device.blocks
  onContainer fun storage => Container.readBlock storage block

/-- Checks that a block can be written. -/
def checkWrite (device : Device) (block : Nat) : Except DiskError Unit := do
  checkBlock block device.blocks
  if device.readOnly then throw .readOnly

/-- Replaces the bytes of a block. -/
def write [Medium] (block : Nat) (data : Block) : Action (Device × Host) Unit := do
  Action.ask fun (device, _) => device.checkWrite block
  onContainer fun storage => Container.writeBlock storage block data
  setModified true

/-- Fills a block with zeros. -/
def zeroBlock [Medium] (block : Nat) : Action (Device × Host) Unit := write block (Bytes.zero 512)

/-- Brings what was written to the medium. -/
def sync [Medium] : Action (Device × Host) Unit :=
  Action.ask fun (device, host) => device.storage.sync host

/-- Brings the header up to date with the data and then all of it to the medium, if anything was
written. -/
def flush [Medium] : Action (Device × Host) Unit
  | (⟨storage, container, readOnly, true⟩, host) =>
    match Container.finish storage (container, host) with
    | .ok () (container, host) =>
      match storage.sync host with
      | .ok () => .ok () (⟨storage, container, readOnly, false⟩, host)
      | .error e => .error e (⟨storage, container, readOnly, true⟩, host)
    | .error e (container, host) => .error e (⟨storage, container, readOnly, true⟩, host)
  | state => .ok () state

/-- Ends a device: it is flushed, and a failure is logged. -/
def dispose [Medium] (device : Device) (host : Host) : Host :=
  let format := device.format
  match flush (device, host) with
  | .ok () (_, host) => host
  | .error e (_, host) => host.warn (.deviceNotFlushed format e)

/-- Flushes a device and ends it. -/
def close [Medium] (device : Device) : Action Host Unit := fun host =>
  match flush (device, host) with
  | .ok () (device, host) => .ok () (device.dispose host)
  | .error e (device, host) => .error e (device.dispose host)

instance [Medium] : Disk (Device × Host) where
  blocks state := state.1.blocks
  readOnly state := state.1.readOnly
  read := read
  write := write
  flush := flush

/-! ## Blocks as parts of a mapping -/

/-- Whether blocks can be handed out as parts of the mapping. -/
def supportsMapping (device : Device) : Bool :=
  device.storage.mapped && (device.container.blockOffset? 0).isSome

/-- Where a block starts in the file. -/
def mappedOffset (device : Device) (block : Nat) : Except DiskError Nat := do
  checkBlock block device.blocks
  match device.container.blockOffset? block with
  | some offset => return offset
  | none => throw (.unsupported (.scatteredBlocks device.format))

/-- The bytes of a block in the mapping. -/
def mappedBlock (device : Device) (host : Host) (block : Nat) : Except DiskError Block := do
  let offset ← device.mappedOffset block
  match ← device.storage.mappedSlice? host offset 512 with
  | some data => return Bytes.ofSlice 512 data 0
  | none => throw (.unsupported .notMapped)

/-- Where a block starts in the file, if the mapping may be changed there. -/
def writableOffset (device : Device) (block : Nat) : Except DiskError Nat :=
  if device.readOnly then .error .readOnly else device.mappedOffset block

/-- The device with a change of a block recorded that went past `write`. -/
def noteModified : Device → Device
  | ⟨storage, container, readOnly, _⟩ => ⟨storage, container.noteModified, readOnly, true⟩

/-- Changes the bytes of a block in the mapping. -/
def updateMapped (block : Nat) (change : Block → Block) : Action (Device × Host) Unit := do
  let offset ← Action.ask fun (device, _) => device.writableOffset block
  modify fun (device, host) => (device.noteModified, host)
  let data ← Action.ask fun (device, host) => device.mappedBlock host block
  onContainer fun storage => Action.onSecond do
    let _ ← storage.writeMapped offset (change data).data

/-- Brings a block of the mapping to the medium. -/
def syncBlock [Medium] (device : Device) (host : Host) (block : Nat) : Except DiskError Unit := do
  let offset ← device.mappedOffset block
  device.storage.syncRange host offset 512

/-! ## When nothing happens -/

theorem run_flush_of_not_modified [Medium] {device : Device} (host : Host)
    (h : device.modified = false) :
    flush.run (device, host) = .ok () (device, host) := by
  obtain ⟨storage, container, readOnly, modified⟩ := device
  subst h
  rfl

end Device

end Diskette
