import Diskette.BlockNumber
import Diskette.Gcr.Survey
import Diskette.Storage

/-!
# The nibble layout

Tracks of 6656 disk bytes, as they come off the drive. Nothing says where a sector is: the tracks
are surveyed when the first sector is asked for, and the index is kept from then on. A block is two
sectors of one track, found through a table.

* `sectorOrder_injective`: no two halves of blocks share a sector.
* `blockSectors_lt`: the sectors of a block are among the sixteen of a track.
-/

namespace Diskette.Layout

open Gcr

/-- A run of tracks of disk bytes. -/
structure Nibble where
  /-- Where track 0 starts. -/
  base : Nat
  tracks : Nat
  policy : SyncPolicy
  /-- Where the sectors of each track are, once the tracks have been surveyed. -/
  index : Option (Array SectorIndex)

namespace Nibble

/-- An image of tracks that have not been surveyed. -/
def ofTracks (base tracks : Nat) (policy : SyncPolicy) : Nibble := ⟨base, tracks, policy, none⟩

/-- The number of blocks: eight on a track. -/
def blocks (layout : Nibble) : Nat := layout.tracks * 8

/-- The number of tracks in `size` bytes, at most 255: an address field has one byte for it. -/
def tracksIn (size : Nat) : Except DiskError Nat :=
  if size = 0 ∨ size % trackSize ≠ 0 then .error (.format .nibble (.sizeNotNibbleTracks size))
  else if size / trackSize ≤ 255 then .ok (size / trackSize)
  else .error (.format .nibble (.tooManyTracks (size / trackSize)))

/-- The number of tracks that `blocks` blocks fill. -/
def tracksFor (blocks : Nat) : Except DiskError Nat :=
  if blocks % 8 ≠ 0 then .error (.format .nibble (.blocksNotTracks blocks))
  else if blocks / 8 ≤ 255 then .ok (blocks / 8)
  else .error (.format .nibble (.tooManyTracks (blocks / 8)))

/-- The number of bytes that `blocks` blocks take. -/
def dataSize (blocks : Nat) : Except DiskError Nat := do
  return (← tracksFor blocks) * trackSize

/-- Writes `count` freshly formatted tracks, the first one of number `number`. -/
def formatFrom [Medium] (storage : Storage) (volume : UInt8) : (count number : Nat) → Action Host Unit
  | 0, _ => pure ()
  | count + 1, number => do
    storage.write (number * trackSize) (Track.formatted volume (UInt8.ofNat number))
    formatFrom storage volume count (number + 1)

/-- Formats a storage for `blocks` blocks. -/
def create [Medium] (storage : Storage) (blocks : Nat) (volume : UInt8) (policy : SyncPolicy) :
    Action Host Nibble := do
  let tracks ← Action.ofExcept (tracksFor blocks)
  formatFrom storage volume tracks 0
  return ofTracks 0 tracks policy

/-- Where a track starts. -/
def trackOffset (layout : Nibble) (track : Nat) : Nat := layout.base + track * trackSize

/-- The disk bytes of a track. -/
def readTrack (layout : Nibble) (storage : Storage) (host : Host) (track : Nat) :
    Except DiskError ByteArray :=
  storage.read host (layout.trackOffset track) trackSize

/-! ## The index -/

/-- Surveys `count` tracks from number `number` on and appends what is found to `index`. -/
def surveyFrom (layout : Nibble) (storage : Storage) :
    (count number : Nat) → (index : Array SectorIndex) → Action Host (Array SectorIndex)
  | 0, _, index => pure index
  | count + 1, number, index => do
    let track ← Action.ask fun host => layout.readTrack storage host number
    let sectors ← (Survey.ofTrack number track).report layout.policy number
    surveyFrom layout storage count (number + 1) (index.push sectors)

/-- The index, which is made when it is first asked for. -/
def ensureIndex (storage : Storage) : Action (Nibble × Host) (Array SectorIndex) :=
  fun (layout, host) =>
    match layout.index with
    | some index => .ok index (layout, host)
    | none =>
      match surveyFrom layout storage layout.tracks 0 #[] host with
      | .ok index host => .ok index ({ layout with index := some index }, host)
      | .error e host => .error e (layout, host)

/-- The place of a sector's data field on its track. -/
def locate (storage : Storage) (track sector : Nat) : Action (Nibble × Host) Nat := do
  let (layout, _) ← get
  if h : sector < 16 then
    if track < layout.tracks then
      let index ← ensureIndex storage
      match (index[track]?).bind (·[sector]) with
      | some place => return place
      | none => throw (.sectorNotFound track sector)
    else throw (.sectorOutOfRange track sector)
  else throw (.sectorOutOfRange track sector)

/-! ## Sectors -/

/-- The sector whose data field is at a place of the track. A wrong checksum is logged. -/
def decodeAt (bytes : ByteArray) (place track sector : Nat) : Action Host Sector := do
  let decoded ← Action.ofExcept (decodeSector (Track.field 343 bytes place))
  if decoded.checksumOk then
    return decoded.sector
  else
    modify (·.warn (.sectorChecksum track sector))
    return decoded.sector

/-- Reads a sector. -/
def readSector (storage : Storage) (track sector : Nat) : Action (Nibble × Host) Sector := do
  let place ← locate storage track sector
  let bytes ← Action.ask fun (layout, host) => layout.readTrack storage host track
  Action.onSecond (decodeAt bytes place track sector)

/-- Writes the disk bytes of a whole track. -/
def writeTrack [Medium] (storage : Storage) (track : Nat) (bytes : ByteArray) :
    Action (Nibble × Host) Unit := fun (layout, host) =>
  match storage.write (layout.trackOffset track) bytes host with
  | .ok () host => .ok () (layout, host)
  | .error e host => .error e (layout, host)

/-- Replaces a sector. -/
def writeSector [Medium] (storage : Storage) (track sector : Nat) (data : Sector) :
    Action (Nibble × Host) Unit := do
  let place ← locate storage track sector
  let bytes ← Action.ask fun (layout, host) => layout.readTrack storage host track
  writeTrack storage track (Track.writeField bytes place (encodeSector data))

/-! ## Blocks -/

/-- For each half block of a track the sector that holds it. -/
def sectorOrder : Vector Nat 16 := #v[0, 2, 4, 6, 8, 10, 12, 14, 1, 3, 5, 7, 9, 11, 13, 15]

theorem sectorOrder_injective {i j : Fin 16} (h : sectorOrder.get i = sectorOrder.get j) :
    i = j := by
  revert i j
  decide

/-- The two sectors of a block on track `block / 8`. -/
def blockSectors (block : Nat) : Nat × Nat :=
  (sectorOrder.get (firstHalf block), sectorOrder.get (secondHalf block))

theorem blockSectors_lt (block : Nat) :
    (blockSectors block).1 < 16 ∧ (blockSectors block).2 < 16 := by
  have : ∀ i : Fin 16, sectorOrder.get i < 16 := by decide
  exact ⟨this (firstHalf block), this (secondHalf block)⟩

/-- The bytes of a block. -/
def readBlock (storage : Storage) (block : Nat) : Action (Nibble × Host) Block := do
  Action.ask fun (layout, _) => checkBlock block layout.blocks
  let track := block / 8
  let (firstSector, secondSector) := blockSectors block
  let firstPlace ← locate storage track firstSector
  let secondPlace ← locate storage track secondSector
  let bytes ← Action.ask fun (layout, host) => layout.readTrack storage host track
  let first ← Action.onSecond (decodeAt bytes firstPlace track firstSector)
  let second ← Action.onSecond (decodeAt bytes secondPlace track secondSector)
  return first.append second

/-- Replaces the bytes of a block: both sectors in one write of the track. -/
def writeBlock [Medium] (storage : Storage) (block : Nat) (data : Block) :
    Action (Nibble × Host) Unit := do
  Action.ask fun (layout, _) => checkBlock block layout.blocks
  let track := block / 8
  let (firstSector, secondSector) := blockSectors block
  let firstPlace ← locate storage track firstSector
  let secondPlace ← locate storage track secondSector
  let bytes ← Action.ask fun (layout, host) => layout.readTrack storage host track
  let bytes := Track.writeField bytes firstPlace (encodeSector (Bytes.ofSlice 256 data.data 0))
  let bytes := Track.writeField bytes secondPlace (encodeSector (Bytes.ofSlice 256 data.data 256))
  writeTrack storage track bytes

end Nibble

end Diskette.Layout
