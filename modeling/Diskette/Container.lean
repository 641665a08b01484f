import Diskette.Format.Size
import Diskette.Options

/-!
# Containers

A container is what a file of any format is made of: an envelope, which is what the format puts in
front of the data, and the layout of the blocks in the data. Containers are recognised, opened and
created here. The DiskCopy 4.2 envelope has a checksum of the data in it, which goes stale when a
block is written and is brought up to date by `finish`.

* `run_finish_of_not_stale`: nothing is done to an envelope that is up to date.
-/

namespace Diskette

open Header Layout

/-- What a format puts in front of the data. -/
inductive Envelope where
  | bare
  | twoImg (header : TwoImg)
  /-- `stale`: a block was written since the checksum was computed. -/
  | diskCopy (header : DiskCopy) (stale : Bool)
  | davex

/-- The parts of an image. -/
structure Container where
  envelope : Envelope
  layout : Layout

namespace Container

/-- The format of the whole file. -/
def format (container : Container) : Format :=
  match container.envelope with
  | .bare => container.layout.format
  | .twoImg _ => .twoImg
  | .diskCopy _ _ => .diskCopy42
  | .davex => .davex

/-- The number of blocks. -/
def blocks (container : Container) : Nat := container.layout.blocks

/-- Whether a header forbids writing. -/
def locked (container : Container) : Bool :=
  match container.envelope with
  | .twoImg header => header.locked
  | _ => false

/-- Where a block starts in the file, if its bytes are kept together. -/
def blockOffset? (container : Container) (block : Nat) : Option Nat :=
  container.layout.blockOffset? block

/-- Records that data was changed, so that a checksum of it is stale. -/
def noteModified : Container → Container
  | ⟨.diskCopy header _, layout⟩ => ⟨.diskCopy header true, layout⟩
  | container => container

/-- Runs an action of the layout. -/
@[inline] def onLayout {α : Type} (act : Action (Layout × Host) α) : Action (Container × Host) α :=
  Action.zoom
    (fun (⟨envelope, layout⟩, host) =>
      ((layout, host), fun (layout, host) => (⟨envelope, layout⟩, host))) act

/-- The bytes of a block. -/
def readBlock (storage : Storage) (block : Nat) : Action (Container × Host) Block :=
  onLayout (Layout.readBlock storage block)

/-- Replaces the bytes of a block. -/
def writeBlock [Medium] (storage : Storage) (block : Nat) (data : Block) :
    Action (Container × Host) Unit := do
  onLayout (Layout.writeBlock storage block data)
  modify fun (container, host) => (container.noteModified, host)

/-! ## The checksum -/

/-- Computes the checksum of the data anew and writes it into the header. -/
def refreshChecksum [Medium] (storage : Storage) (header : DiskCopy) : Action Host DiskCopy := do
  let data ← Action.ask fun host => storage.read host DiskCopy.size header.dataSize
  let sum := DiskCopy.checksum data
  storage.write DiskCopy.checksumOffset (beBytes 4 sum.toNat).toByteArray
  return { header with dataChecksum := sum }

/-- Brings the envelope up to date with the data. -/
def finish [Medium] (storage : Storage) : Action (Container × Host) Unit
  | (⟨.diskCopy header true, layout⟩, host) =>
    match refreshChecksum storage header host with
    | .ok header host => .ok () (⟨.diskCopy header false, layout⟩, host)
    | .error e host => .error e (⟨.diskCopy header true, layout⟩, host)
  | state => .ok () state

theorem run_finish_of_not_stale [Medium] {container : Container} (storage : Storage) (host : Host)
    (h : ∀ header, container.envelope ≠ .diskCopy header true) :
    (finish storage).run (container, host) = .ok () (container, host) := by
  obtain ⟨envelope, layout⟩ := container
  simp only [EStateM.run, finish]
  split
  · next heq =>
    injection heq with heq _
    injection heq with he _
    exact absurd he (h _)
  · rfl

/-! ## Recognising -/

/-- The format of a file, by its first bytes and then by its name. A name that stands for a format
with a header stands for plain blocks when the header is missing. -/
def detectFormat (storage : Storage) (host : Host) (path : String) : Except DiskError Format := do
  let start ← storage.read host 0 (min storage.size DiskCopy.size)
  if 4 ≤ start.size ∧ TwoImg.hasSignature start then
    return .twoImg
  else if 16 ≤ start.size ∧ Davex.hasIdentity start then
    return .davex
  else if start.size = DiskCopy.size ∧
      DiskCopy.describes (Bytes.ofSlice DiskCopy.size start 0) storage.size then
    return .diskCopy42
  else
    match Format.ofPath path with
    | .nibble => return .nibble
    | .dosOrder => return .dosOrder
    | _ => return .proDosOrder

/-! ## Opening -/

/-- The first `n` bytes of a file, which have to be there. -/
def readHead (format : Format) (n : Nat) (storage : Storage) (host : Host) :
    Except DiskError (Bytes n) :=
  if storage.size < n then .error (.format format .fileShorterThanHeader)
  else
    match storage.read host 0 n with
    | .ok head => .ok (Bytes.ofSlice n head 0)
    | .error e => .error e

/-- The length of the data behind a 2IMG header. A header of blocks in ProDOS order may leave it
out. -/
def twoImgDataLength (header : TwoImg) : Nat :=
  if header.dataLength = 0 ∧ header.format = .proDos then header.blocks.toNat * 512
  else header.dataLength.toNat

/-- The layout of the data behind a 2IMG header. A header of blocks in ProDOS order may leave out
their number. -/
def twoImgLayout (header : TwoImg) (policy : Gcr.SyncPolicy) : Except DiskError Layout :=
  let start := header.dataOffset.toNat
  let length := twoImgDataLength header
  match header.format with
  | .proDos =>
    let blocks := if header.blocks = 0 then length / 512 else header.blocks.toNat
    if blocks = 0 ∨ blocks * 512 > length then
      .error (.format .twoImg (.blocksOutsideData blocks length))
    else .ok (.sequential ⟨start, blocks⟩)
  | .dos =>
    if length = 0 ∨ length % 4096 ≠ 0 then .error (.format .twoImg .dataNotTracks)
    else .ok (.interleaved ⟨start, length / 512⟩)
  | .nibble => do
    let tracks ← Nibble.tracksIn length
    return .nibble (.ofTracks start tracks policy)

/-- Opens a 2IMG file. -/
def openTwoImg (storage : Storage) (host : Host) (policy : Gcr.SyncPolicy) :
    Except DiskError Container := do
  let header ← TwoImg.parse (← readHead .twoImg 64 storage host)
  let start := header.dataOffset.toNat
  let length := twoImgDataLength header
  if start < header.headerSize.toNat ∨ start + length > storage.size then
    throw (.format .twoImg (.dataOutsideFile start length storage.size))
  return ⟨.twoImg header, ← twoImgLayout header policy⟩

/-- Opens a DiskCopy 4.2 file. A wrong checksum is logged. -/
def openDiskCopy (storage : Storage) : Action Host Container := do
  let head ← Action.ask fun host => readHead .diskCopy42 DiskCopy.size storage host
  let header ← Action.ofExcept (DiskCopy.parse head storage.size)
  let data ← Action.ask fun host => storage.read host DiskCopy.size header.dataSize
  let computed := DiskCopy.checksum data
  if computed ≠ header.dataChecksum then
    modify (·.warn (.dataChecksum header.dataChecksum computed))
  return ⟨.diskCopy header false, .sequential ⟨DiskCopy.size, header.dataSize / 512⟩⟩

/-- Opens a Davex file. -/
def openDavex (storage : Storage) (host : Host) : Except DiskError Container := do
  let blocks ← Davex.parse (← readHead .davex Davex.size storage host) storage.size
  return ⟨.davex, .sequential ⟨Davex.size, blocks⟩⟩

/-- Opens a file of a known format. -/
def openAs (format : Format) (storage : Storage) (policy : Gcr.SyncPolicy) :
    Action Host Container :=
  match format with
  | .proDosOrder => Action.ofExcept do
    return ⟨.bare, .sequential (← Sequential.ofFileSize storage.size)⟩
  | .dosOrder => Action.ofExcept do
    return ⟨.bare, .interleaved (← Interleaved.ofFileSize storage.size)⟩
  | .nibble => Action.ofExcept do
    return ⟨.bare, .nibble (.ofTracks 0 (← Nibble.tracksIn storage.size) policy)⟩
  | .twoImg => Action.ask fun host => openTwoImg storage host policy
  | .diskCopy42 => openDiskCopy storage
  | .davex => Action.ask fun host => openDavex storage host

/-- Opens a file of the format that the options name, or else of the format that it is recognised
to have. -/
def openFile (storage : Storage) (path : String) (options : DeviceOptions) :
    Action Host Container :=
  match options.format with
  | some format => openAs format storage options.nibble.syncPolicy
  | none => do
    let format ← Action.ask fun host => detectFormat storage host path
    openAs format storage options.nibble.syncPolicy

/-! ## Creating -/

/-- Writes a 2IMG header for `blocks` blocks. -/
def createTwoImg [Medium] (storage : Storage) (blocks : Nat) : Action Host Container := do
  let header ← Action.ofExcept (TwoImg.ofBlocks blocks)
  storage.write 0 header.toBytes.data
  return ⟨.twoImg header, .sequential ⟨header.dataOffset.toNat, blocks⟩⟩

/-- Writes a DiskCopy 4.2 header for `blocks` blocks of zeros. -/
def createDiskCopy [Medium] (storage : Storage) (blocks : Nat) : Action Host Container := do
  if blocks * 512 < 0x100000000 then
    storage.write 0 (DiskCopy.newHeader blocks).data
    let header : DiskCopy :=
      { name := Text.decodeLossy DiskCopy.newName
        dataSize := blocks * 512
        tagSize := 0
        dataChecksum := 0 }
    return ⟨.diskCopy header false, .sequential ⟨DiskCopy.size, blocks⟩⟩
  else throw (.format .diskCopy42 .tooManyBlocks)

/-- Writes a Davex header for `blocks` blocks. -/
def createDavex [Medium] (storage : Storage) (blocks : Nat) : Action Host Container := do
  if blocks < 0x10000 then
    storage.write 0 (Davex.newHeader blocks).data
    return ⟨.davex, .sequential ⟨Davex.size, blocks⟩⟩
  else throw (.format .davex .davexBlockLimit)

/-- Makes a file of zeros an empty image of `blocks` blocks. -/
def create [Medium] (format : Format) (storage : Storage) (blocks : Nat) (options : NibbleOptions) :
    Action Host Container :=
  match format with
  | .proDosOrder => return ⟨.bare, .sequential ⟨0, blocks⟩⟩
  | .dosOrder => return ⟨.bare, .interleaved ⟨0, blocks⟩⟩
  | .nibble => do
    let layout ← Nibble.create storage blocks options.volume options.syncPolicy
    return ⟨.bare, .nibble layout⟩
  | .twoImg => createTwoImg storage blocks
  | .diskCopy42 => createDiskCopy storage blocks
  | .davex => createDavex storage blocks

end Container

end Diskette
