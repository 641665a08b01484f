import Diskette.Format
import Diskette.Numeral

/-!
# Errors and warnings

What can go wrong with a disk image, by cause. A `DiskError` ends an operation; a `Warning` is
logged and the operation goes on. The wording of both is here and nowhere else.

* `DiskError.kind`: faults of a format, failures of the host's files, and requests that cannot be
  met.
* `DiskError.IsOutage`: the host failed.
-/

namespace Diskette

/-- What is wrong with the sectors of a track. -/
inductive TrackDamage where
  /-- The address field at `start` names another track. -/
  | foreignTrack (start : Nat) (claimed : UInt8)
  /-- The address field at `start` names a sector that no track has. -/
  | sectorTooLarge (start : Nat) (sector : UInt8)
  /-- No data field follows the address field of a sector. -/
  | noDataField (sector : Nat)
  /-- A second address field of a sector starts at `start`. -/
  | duplicateSector (sector start : Nat)
  /-- No address field names the sector. -/
  | missingSector (sector : Nat)
  deriving DecidableEq, Repr

/-- The wording of a damage on track `track`. -/
def TrackDamage.message (track : Nat) : TrackDamage → String
  | foreignTrack start claimed =>
    s!"track {track}: address field at {start} claims track {claimed.toNat}"
  | sectorTooLarge start sector =>
    s!"track {track}: address field at {start} has sector {sector.toNat}"
  | noDataField sector => s!"track {track}, sector {sector}: no data field"
  | duplicateSector sector start => s!"track {track}: duplicate sector {sector} at {start}"
  | missingSector sector => s!"track {track}: sector {sector} missing"

/-- Why a file, or a number of blocks, does not fit a format. -/
inductive FormatFault where
  | noBlocks
  | tooManyBlocks
  | sizeNotBlocks (size : Nat)
  | sizeNotTracks (size : Nat)
  | sizeNotNibbleTracks (size : Nat)
  | blocksNotTracks (blocks : Nat)
  | tooManyTracks (tracks : Nat)
  | damagedTrack (track : Nat) (damage : TrackDamage)
  | fileShorterThanHeader
  | noTwoImgSignature
  | headerTooSmall (size : Nat)
  | unknownDataFormat (code : Nat)
  | lengthOverflow (blocks : Nat)
  | dataOutsideFile (offset length fileSize : Nat)
  | blocksOutsideData (blocks length : Nat)
  | dataNotTracks
  | nameTooLong (length : Nat)
  | wrongPrivateWord (word : Nat)
  | dataSizeNotBlocks (size : Nat)
  | headerExceedsFile (described fileSize : Nat)
  | noDavexIdentity
  | davexBlockLimit
  | blocksOutsideFile (blocks needed fileSize : Nat)
  deriving DecidableEq, Repr

/-- The wording of a fault. -/
def FormatFault.reason : FormatFault → String
  | noBlocks => "block count must be non-zero"
  | tooManyBlocks => "too many blocks"
  | sizeNotBlocks size => s!"size {size} is not a multiple of 512"
  | sizeNotTracks size => s!"size {size} is not a whole number of tracks"
  | sizeNotNibbleTracks size => s!"size {size} is not a whole number of 6656-byte tracks"
  | blocksNotTracks blocks => s!"{blocks} blocks is not a whole number of tracks"
  | tooManyTracks tracks => s!"{tracks} tracks exceed the 255-track limit"
  | damagedTrack track damage => damage.message track
  | fileShorterThanHeader => "file is shorter than the header"
  | noTwoImgSignature => "missing 2IMG signature"
  | headerTooSmall size => s!"header size {size} is too small"
  | unknownDataFormat code => s!"unknown image format {code}"
  | lengthOverflow blocks => s!"{blocks} blocks overflow the 32-bit data length"
  | dataOutsideFile offset length fileSize =>
    s!"data region {offset}+{length} does not fit a {fileSize}-byte file"
  | blocksOutsideData blocks length => s!"{blocks} blocks do not fit {length} data bytes"
  | dataNotTracks => "DOS-order data is not a whole number of tracks"
  | nameTooLong length => s!"name length {length} exceeds 63"
  | wrongPrivateWord word => "private word " ++ hexNumeral 4 word
  | dataSizeNotBlocks size => s!"data size {size} is not whole blocks"
  | headerExceedsFile described fileSize =>
    s!"header describes {described} bytes, file has {fileSize}"
  | noDavexIdentity => "missing Davex identity"
  | davexBlockLimit => "at most 65535 blocks"
  | blocksOutsideFile blocks needed fileSize =>
    s!"{blocks} blocks need {needed} bytes, file has {fileSize}"

/-- Why the host refused an access to a file. -/
inductive FileFault where
  | notFound
  | permissionDenied
  /-- The file ends before the bytes asked for. -/
  | shortRead
  /-- A text file holds bytes that are not UTF-8. -/
  | notText
  /-- The range lies outside the image as it was when it was opened. -/
  | outOfRange (offset length imageSize : Nat)
  /-- The host failed to do what it was asked for. -/
  | medium (message : String)
  /-- Another program cut bytes off that were reached through a mapping. The host ends a program
  that does so; no call returns this. -/
  | lostMapping
  deriving DecidableEq, Repr

/-- The wording of a refused access. -/
def FileFault.message : FileFault → String
  | notFound => "No such file or directory (os error 2)"
  | permissionDenied => "Permission denied (os error 13)"
  | shortRead => "failed to fill whole buffer"
  | notText => "stream did not contain valid UTF-8"
  | outOfRange offset length imageSize =>
    s!"range {offset}+{length} outside image of {imageSize} bytes"
  | medium message => message
  | lostMapping => "Bus error"

/-- What an image or a cache has no way to do. -/
inductive Limitation where
  /-- An index node has 16 bits for a block number. -/
  | pointerTooLarge (block : Nat)
  /-- The layout does not keep the bytes of a block together. -/
  | scatteredBlocks (format : Format)
  /-- The file is not mapped. -/
  | notMapped
  /-- Blocks of this image cannot be handed out as parts of the mapping. -/
  | noDirectMapping (format : Format)
  deriving DecidableEq, Repr

/-- The wording of a limitation. -/
def Limitation.message : Limitation → String
  | pointerTooLarge block => s!"block {block} does not fit a 16-bit pointer"
  | scatteredBlocks format => s!"{format.name} images have no contiguous block layout"
  | notMapped => "image is not memory-mapped"
  | noDirectMapping format => s!"{format.name} image cannot be accessed through a direct mapping"

/-- Why an operation ended without a result. -/
inductive DiskError where
  | format (format : Format) (fault : FormatFault)
  | file (fault : FileFault)
  | blockOutOfRange (block blocks : Nat)
  | sectorOutOfRange (track sector : Nat)
  | sectorNotFound (track sector : Nat)
  | addressChecksum (volume track sector : UInt8)
  | invalidNibble (nibble : UInt8)
  | readOnly
  | invalidStorageType (code : UInt8)
  /-- A file that is not extended was asked for its resource fork. -/
  | noResourceFork
  | fileTooLarge (size : Nat)
  | diskFull
  | staleHandle (block : Nat)
  | noSuchVolume (id : Nat)
  | unsupported (limitation : Limitation)
  /-- The options are not the JSON text of any options. -/
  | badOptions
  deriving DecidableEq, Repr

/-- The three classes of errors. -/
inductive ErrorKind where
  /-- The image, or the request for one, breaks the rules of its format. -/
  | fatalFormat
  /-- The host could not read or write a file. -/
  | io
  /-- The request names something that is not there or cannot be done. -/
  | logical
  deriving DecidableEq, Repr

namespace DiskError

/-- The class of an error. -/
def kind : DiskError → ErrorKind
  | format .. => .fatalFormat
  | file _ => .io
  | _ => .logical

/-- The wording of an error. -/
def message : DiskError → String
  | format kind fault => s!"Invalid {kind.name} image: {fault.reason}"
  | file fault => s!"I/O error: {fault.message}"
  | blockOutOfRange block blocks => s!"Block {block} out of range (device has {blocks} blocks)"
  | sectorOutOfRange track sector => s!"Track {track}, sector {sector} out of range"
  | sectorNotFound track sector => s!"Sector not found: track {track}, sector {sector}"
  | addressChecksum volume track sector =>
    s!"Address field checksum mismatch (volume {volume.toNat}, track {track.toNat}, " ++
      s!"sector {sector.toNat})"
  | invalidNibble nibble => "Invalid disk nibble: " ++ hexNumeral 2 nibble.toNat
  | readOnly => "Read-only device"
  | invalidStorageType code => "Invalid storage type: " ++ hexNumeral 1 code.toNat
  | noResourceFork => "Invalid fork: file has no resource fork"
  | fileTooLarge size => s!"File too large: {size} bytes"
  | diskFull => "Disk full"
  | staleHandle block => s!"Stale handle for block {block}"
  | noSuchVolume id => s!"No open volume with id {id}"
  | unsupported limitation => s!"Unsupported: {limitation.message}"
  | badOptions => "Configuration error"

/-- Whether the host failed to do what it was asked for. -/
def IsOutage (e : DiskError) : Prop := ∃ message, e = .file (.medium message)

theorem isOutage_medium (message : String) : IsOutage (.file (.medium message)) := ⟨message, rfl⟩

end DiskError

/-- What is logged while an operation goes on. -/
inductive Warning where
  /-- An address field that cannot be decoded was passed over. -/
  | skippedAddress (track start : Nat) (cause : DiskError)
  | damagedTrack (track : Nat) (damage : TrackDamage)
  /-- A sector was read although its checksum is wrong. -/
  | sectorChecksum (track sector : Nat)
  /-- An image was opened although the checksum in its header is wrong. -/
  | dataChecksum (stored computed : UInt32)
  | deviceNotFlushed (format : Format) (cause : DiskError)
  /-- A pooled cache ended with blocks still checked out. -/
  | blocksStillAcquired (count : Nat)
  | poolNotFlushed (cause : DiskError)
  | mappingNotSynced (cause : DiskError)
  | volumeNotClosed (id : Nat) (cause : DiskError)
  deriving DecidableEq, Repr

/-- The wording of a warning. -/
def Warning.message : Warning → String
  | skippedAddress track start cause =>
    s!"track {track}: skipping address field at {start}: {cause.message}"
  | damagedTrack track damage => damage.message track
  | sectorChecksum track sector => s!"data checksum mismatch at track {track}, sector {sector}"
  | dataChecksum stored computed =>
    "DiskCopy 4.2 data checksum mismatch: header " ++ hexNumeral 8 stored.toNat ++
      ", computed " ++ hexNumeral 8 computed.toNat
  | deviceNotFlushed format cause => s!"failed to flush {format.name} image: {cause.message}"
  | blocksStillAcquired count => s!"block cache dropped with {count} blocks still acquired"
  | poolNotFlushed cause => s!"failed to flush block cache: {cause.message}"
  | mappingNotSynced cause => s!"failed to sync mapped cache: {cause.message}"
  | volumeNotClosed id cause => s!"failed to close volume #{id}: {cause.message}"

end Diskette
