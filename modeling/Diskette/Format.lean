import Diskette.Path

/-!
# Image formats

The six kinds of image files, their names, and the format that a file name suggests.

* `Format.ofKey?_key`: the key of a format in options is read back as that format.
-/

namespace Diskette

/-- The kinds of image files. -/
inductive Format where
  /-- Blocks one after the other, without a header. -/
  | proDosOrder
  /-- The sectors of each track in the order of DOS 3.3, without a header. -/
  | dosOrder
  /-- Tracks of disk bytes, without a header. -/
  | nibble
  /-- A 64-byte header that names the layout of the data. -/
  | twoImg
  /-- An 84-byte header with a checksum, then blocks. -/
  | diskCopy42
  /-- A 512-byte header, then blocks. -/
  | davex
  deriving DecidableEq, Repr

namespace Format

/-- The name of a format in messages. -/
def name : Format → String
  | proDosOrder => "ProDOS-order"
  | dosOrder => "DOS-order"
  | nibble => "nibble"
  | twoImg => "2IMG"
  | diskCopy42 => "DiskCopy 4.2"
  | davex => "Davex"

/-- All formats. -/
def all : List Format := [proDosOrder, dosOrder, nibble, twoImg, diskCopy42, davex]

/-- The name of a format in options. -/
def key : Format → String
  | proDosOrder => "proDosOrder"
  | dosOrder => "dosOrder"
  | nibble => "nibble"
  | twoImg => "twoImg"
  | diskCopy42 => "diskCopy42"
  | davex => "davex"

/-- The format that options name by `key`. -/
def ofKey? (key : String) : Option Format := all.find? fun format => format.key = key

theorem ofKey?_key (format : Format) : ofKey? format.key = some format := by
  cases format <;> decide +kernel

/-- The format that an extension stands for, whatever the case of its ASCII letters. -/
def ofExtension (extension : List Char) : Format :=
  match String.ofList (extension.map Char.toLower) with
  | "nib" => nibble
  | "do" | "dsk" => dosOrder
  | "2mg" | "2img" => twoImg
  | "dc42" | "dc" => diskCopy42
  | _ => proDosOrder

/-- The format that the name of a file suggests. -/
def ofPath (path : String) : Format :=
  ofExtension ((Path.extension? path.toList).getD [])

end Format

end Diskette
