import Diskette.Action
import Diskette.Bytes

/-!
# The host

The host keeps named files, each with its contents and the access it grants, and the log of
warnings. No directory exists, so a name with a slash in it names no file and none can be created
under it. A file that was removed is found under its name no more, but those who have it open keep
it. (When the name is then given to a new file, they see that one: two files of one name are not
told apart.)

* `contents_writeAt_self`, `contents_writeAt_of_ne`: a write changes the file it names and no other.
-/

namespace Diskette

/-- What a file lets those do who open it. -/
inductive Access where
  | readWrite
  | readOnly
  | refused
  /-- The name was removed: only those who have the file open reach it. -/
  | removed
  deriving DecidableEq, Repr

/-- A named file. -/
structure File where
  name : String
  contents : ByteArray
  access : Access

/-- The files of the host and the warnings logged so far, the first one first. -/
structure Host where
  files : List File
  warnings : Array Warning

namespace Host

/-- A host without files. -/
def empty : Host := ⟨[], #[]⟩

/-- The file of that name. -/
def find? (host : Host) (name : String) : Option File :=
  host.files.find? fun file => file.name = name

/-- The contents of the file of that name, empty when there is none. -/
def contents (host : Host) (name : String) : ByteArray :=
  match host.find? name with
  | some file => file.contents
  | none => .empty

/-- Logs a warning. -/
def warn (host : Host) (warning : Warning) : Host :=
  { host with warnings := host.warnings.push warning }

/-- Logs warnings in order. -/
def warnAll (host : Host) (warnings : List Warning) : Host := warnings.foldl warn host

/-- The files with `change` applied to the contents of the file of that name. -/
def changeContents (name : String) (change : ByteArray → ByteArray) : List File → List File
  | [] => []
  | ⟨other, contents, access⟩ :: rest =>
    if other = name then ⟨other, change contents, access⟩ :: rest
    else ⟨other, contents, access⟩ :: changeContents name change rest

/-- Writes `data` over the file of that name from `offset` on; the file grows when the data ends
past its end. -/
def writeAt (host : Host) (name : String) (offset : Nat) (data : ByteArray) : Host :=
  { host with files := changeContents name (overwrite · offset data) host.files }

/-- Cuts the file of that name to `size` bytes, or extends it with zeros. -/
def resize (host : Host) (name : String) (size : Nat) : Host :=
  { host with
    files := changeContents name
      (fun contents => slice contents 0 size ++ zeros (size - contents.size)) host.files }

/-- Sets the access that the file of that name grants. -/
def setAccess (host : Host) (name : String) (access : Access) : Host :=
  { host with
    files := host.files.map fun file => if file.name = name then { file with access } else file }

/-- Removes the file of that name. Those who have it open keep it. -/
def remove (host : Host) (name : String) : Host := host.setAccess name .removed

/-- The files that can be found. -/
def listed (host : Host) : List File := host.files.filter fun file => file.access ≠ .removed

/-- The file of that name, or the fault of looking for it. -/
def lookUp (host : Host) (name : String) : Except DiskError File :=
  match host.find? name with
  | some file => if file.access = .removed then .error (.file .notFound) else .ok file
  | none => .error (.file .notFound)

/-- Gives the file of that name these contents, and creates it when there is none. -/
def replace (host : Host) (name : String) (data : ByteArray) : Host :=
  match host.lookUp name with
  | .ok _ => { host with files := changeContents name (fun _ => data) host.files }
  | .error _ =>
    { host with
      files := (host.files.filter fun file => file.name ≠ name) ++ [⟨name, data, .readWrite⟩] }

/-- Whether a file of that name can be opened for reading. -/
def checkReadable (host : Host) (name : String) : Except DiskError Unit :=
  match host.lookUp name with
  | .ok file => if file.access = .refused then .error (.file .permissionDenied) else .ok ()
  | .error e => .error e

/-- The contents of the file of that name, once it is open for reading. -/
def read (host : Host) (name : String) : Except DiskError ByteArray := do
  host.checkReadable name
  return host.contents name

/-- Whether a file of that name can be opened for writing. -/
def checkWritable (host : Host) (name : String) : Except DiskError Unit :=
  match host.lookUp name with
  | .ok file => if file.access = .readWrite then .ok () else .error (.file .permissionDenied)
  | .error e => .error e

/-- Whether a file of that name can be created, or emptied if it exists. -/
def checkCreatable (host : Host) (name : String) : Except DiskError Unit :=
  match host.lookUp name with
  | .ok file => if file.access = .readWrite then .ok () else .error (.file .permissionDenied)
  | .error _ => if name.contains '/' then .error (.file .notFound) else .ok ()

/-! ## What a write changes -/

theorem find?_changeContents (name other : String) (change : ByteArray → ByteArray)
    (files : List File) :
    (changeContents name change files).find? (fun file => file.name = other) =
      (files.find? fun file => file.name = other).map fun file =>
        if file.name = name then { file with contents := change file.contents } else file := by
  induction files with
  | nil => rfl
  | cons file rest ih =>
    obtain ⟨fileName, contents, access⟩ := file
    by_cases hn : fileName = name
    · by_cases ho : fileName = other
      · simp [changeContents, hn, ← ho]
      · have : (rest.find? fun file => file.name = other).map (fun file =>
            if file.name = name then { file with contents := change file.contents } else file) =
            rest.find? fun file => file.name = other := by
          cases hf : rest.find? fun file => file.name = other with
          | none => rfl
          | some found =>
            have hfound : found.name = other := by simpa using List.find?_some hf
            have : found.name ≠ name := fun he => ho (hn.trans (he.symm.trans hfound))
            simp [this]
        rw [List.find?_cons_of_neg (by simpa using ho), this]
        simp [changeContents, hn, List.find?_cons_of_neg, hn ▸ ho]
    · by_cases ho : fileName = other
      · simp [changeContents, ← ho, hn]
      · simp [changeContents, hn, ho, ih]

theorem contents_writeAt_self {host : Host} {name : String} (offset : Nat) (data : ByteArray)
    (h : (host.find? name).isSome) :
    (host.writeAt name offset data).contents name = overwrite (host.contents name) offset data := by
  obtain ⟨file, hf⟩ := Option.isSome_iff_exists.mp h
  have hn : file.name = name := by simpa using List.find?_some hf
  have := find?_changeContents name name (overwrite · offset data) host.files
  simp only [find?] at hf
  simp [contents, find?, writeAt, this, hf, hn]

theorem contents_writeAt_of_ne {host : Host} {name other : String} (offset : Nat)
    (data : ByteArray) (h : other ≠ name) :
    (host.writeAt name offset data).contents other = host.contents other := by
  have := find?_changeContents name other (overwrite · offset data) host.files
  cases hf : host.files.find? fun file => file.name = other with
  | none => simp [contents, find?, writeAt, this, hf]
  | some file =>
    have hn : file.name = other := by simpa using List.find?_some hf
    simp [contents, find?, writeAt, this, hf, hn, h]

end Host

end Diskette
