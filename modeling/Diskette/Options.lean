import Diskette.Gcr.Survey
import Diskette.Json
import Diskette.Storage
import Diskette.Text.Utf8

/-!
# Options

How a device is opened or created, and the JSON text of options. Every part has a default; a text
may leave out any of them.
-/

namespace Diskette

/-- Options of the pooled cache. -/
structure CacheOptions where
  /-- The number of buffers asked for. -/
  poolSize : Nat := 16
  deriving DecidableEq, Repr

/-- Options of nibble images. -/
structure NibbleOptions where
  syncPolicy : Gcr.SyncPolicy := .bestEffort
  /-- The volume number on newly formatted tracks. -/
  volume : UInt8 := 254
  deriving DecidableEq, Repr

/-- Options of a device. -/
structure DeviceOptions where
  readOnly : Bool := false
  /-- The format of the image; without one it is recognised. -/
  format : Option Format := none
  backing : Backing := .mapped
  cache : CacheOptions := {}
  nibble : NibbleOptions := {}
  deriving DecidableEq, Repr

/-- The smallest number of buffers of a pooled cache. -/
abbrev minPoolSize : Nat := 16

namespace DeviceOptions

/-- The number of buffers of a pooled cache. -/
def poolSize (options : DeviceOptions) : Nat := max options.cache.poolSize minPoolSize

/-! ## The JSON text of options -/

/-- A part of a record: what is read from it, or the default when it is missing. -/
def partD {α : Type} (read : Json → Option α) (default : α) : Option Json → Option α
  | some value => read value
  | none => some default

/-- The name of a backing. -/
def backingOfKey? : String → Option Backing
  | "mapped" => some .mapped
  | "descriptor" => some .descriptor
  | _ => none

/-- The name of a policy. -/
def policyOfKey? : String → Option Gcr.SyncPolicy
  | "strict" => some .strict
  | "bestEffort" => some .bestEffort
  | _ => none

/-- A format, or null for none. -/
def readFormat : Json → Option (Option Format)
  | .null => some none
  | value => (value.choice?.bind Format.ofKey?).map some

/-- The options of the pooled cache; a pool size has 64 bits. -/
def readCache (value : Json) : Option CacheOptions :=
  match value.record? ["poolSize"] with
  | some [poolSize] => do
    let poolSize ← partD (Json.natural? 0xFFFFFFFFFFFFFFFF) 16 poolSize
    return ⟨poolSize⟩
  | _ => none

/-- The options of nibble images; a volume number has 8 bits. -/
def readNibble (value : Json) : Option NibbleOptions :=
  match value.record? ["syncPolicy", "volume"] with
  | some [syncPolicy, volume] => do
    let syncPolicy ← partD (fun value => value.choice?.bind policyOfKey?) .bestEffort syncPolicy
    let volume ← partD (fun value => (value.natural? 255).map UInt8.ofNat) 254 volume
    return ⟨syncPolicy, volume⟩
  | _ => none

/-- The options that a JSON value stands for. -/
def ofJson? (value : Json) : Option DeviceOptions :=
  match value.record? ["readOnly", "format", "backing", "cache", "nibble"] with
  | some [readOnly, format, backing, cache, nibble] => do
    let readOnly ← partD Json.bool? false readOnly
    let format ← partD readFormat none format
    let backing ← partD (fun value => value.choice?.bind backingOfKey?) .mapped backing
    let cache ← partD readCache {} cache
    let nibble ← partD readNibble {} nibble
    return ⟨readOnly, format, backing, cache, nibble⟩
  | _ => none

/-- The options that a JSON value stands for, or the error that it stands for none. -/
def ofJson (value : Json) : Except DiskError DeviceOptions :=
  match ofJson? value with
  | some options => .ok options
  | none => .error .badOptions

/-- The options that a text stands for. -/
def parse (text : String) : Except DiskError DeviceOptions :=
  match Json.parse? text with
  | some value => ofJson value
  | none => .error .badOptions

/-- The options in a file. -/
def load (host : Host) (name : String) : Except DiskError DeviceOptions := do
  let contents ← host.read name
  match Text.decode? contents.toList with
  | some text => parse text
  | none => .error (.file .notText)

end DeviceOptions

end Diskette
