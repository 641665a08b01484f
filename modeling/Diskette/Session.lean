import Diskette.Cache

/-!
# Sessions

A session keeps the open volumes, each one a cache with its device, in numbered slots. The slot of a
closed volume is used again.

* `vacant_le_size`: a new volume gets a slot that exists or the one after the last.
* `run_onCache_of_not_open`: a volume that is not open has no cache to work on.
-/

namespace Diskette

/-- An open image and its cache. -/
structure Volume where
  path : String
  cache : Cache

/-- The open volumes by slot. -/
structure Session where
  slots : Array (Option Volume)

namespace Session

/-- A session without volumes. -/
def empty : Session := ⟨#[]⟩

/-- The name of the volume in a slot. -/
def label (id : Nat) : String := s!"#{id}"

/-- The volume in a slot. -/
def find? (session : Session) (id : Nat) : Option Volume := (session.slots[id]?).join

/-- The open volumes, in ascending order. -/
def volumes (session : Session) : List Nat :=
  (List.range session.slots.size).filter fun id => (session.find? id).isSome

/-- The lowest empty slot, or the one after the last. -/
def vacant (session : Session) : Nat :=
  (session.slots.findIdx? Option.isNone).getD session.slots.size

/-- Puts a volume into a slot that exists, or one after the last. -/
def put (id : Nat) (volume : Volume) : Session → Session
  | ⟨slots⟩ =>
    if id < slots.size then ⟨slots.setIfInBounds id (some volume)⟩ else ⟨slots.push (some volume)⟩

/-- Empties a slot. -/
def vacate (id : Nat) : Session → Session
  | ⟨slots⟩ => ⟨slots.setIfInBounds id none⟩

theorem vacant_le_size (session : Session) : session.vacant ≤ session.slots.size := by
  unfold vacant
  cases h : session.slots.findIdx? Option.isNone with
  | none => simp
  | some id =>
    obtain ⟨hlt, _⟩ := Array.findIdx?_eq_some_iff_getElem.mp h
    exact Nat.le_of_lt hlt

/-- The strategy that suits a device and its options: a mapping when one is asked for and can be
had, else a pool. -/
def cacheFor [Medium] (device : Device) (options : DeviceOptions) : Action Host Cache :=
  if options.backing = .mapped ∧ device.supportsMapping then Cache.ofMapping device
  else return Cache.ofPool device options.poolSize

/-- Gives a device a cache and the lowest empty slot. -/
def insert [Medium] (path : String) (device : Device) (options : DeviceOptions) :
    Action (Session × Host) Nat := do
  let cache ← Action.onSecond (cacheFor device options)
  let id ← Action.ask fun (session, _) => .ok session.vacant
  modify fun (session, host) => (session.put id ⟨path, cache⟩, host)
  return id

/-- Opens an image as a volume. -/
def openFile [Medium] (path : String) (options : DeviceOptions) : Action (Session × Host) Nat := do
  let device ← Action.onSecond (Device.openFile path options)
  insert path device options

/-- Creates an image and opens it as a volume. -/
def create [Medium] (path : String) (format : Format) (blocks : Nat) (options : DeviceOptions) :
    Action (Session × Host) Nat := do
  let device ← Action.onSecond (Device.create path format blocks options)
  insert path device options

/-- The path of an open volume. -/
def path (session : Session) (id : Nat) : Except DiskError String :=
  match session.find? id with
  | some volume => .ok volume.path
  | none => .error (.noSuchVolume id)

/-- Runs an action on the cache of an open volume. -/
def onCache {α : Type} (id : Nat) (act : Action (Cache × Host) α) : Action (Session × Host) α :=
  fun (session, host) =>
    match session.find? id with
    | some ⟨path, cache⟩ =>
      match act (cache, host) with
      | .ok a (cache, host) => .ok a (session.put id ⟨path, cache⟩, host)
      | .error e (cache, host) => .error e (session.put id ⟨path, cache⟩, host)
    | none => .error (.noSuchVolume id) (session, host)

theorem run_onCache_of_not_open {α : Type} {session : Session} {id : Nat}
    (act : Action (Cache × Host) α) (host : Host) (h : session.find? id = none) :
    (onCache id act).run (session, host) = .error (.noSuchVolume id) (session, host) := by
  simp [EStateM.run, onCache, h]

/-- Syncs a cache and disposes of it, whatever came of the sync. -/
def closeCache [Medium] (cache : Cache) : Action Host Unit := fun host =>
  match BlockCache.sync (cache, host) with
  | .ok () (cache, host) => .ok () (cache.dispose host)
  | .error e (cache, host) => .error e (cache.dispose host)

/-- Closes a volume. Its slot is empty afterwards even if it could not be synced. -/
def close [Medium] (id : Nat) : Action (Session × Host) Unit := fun (session, host) =>
  match session.find? id with
  | some ⟨_, cache⟩ =>
    match closeCache cache host with
    | .ok () host => .ok () (session.vacate id, host)
    | .error e host => .error e (session.vacate id, host)
  | none => .error (.noSuchVolume id) (session, host)

/-- Closes volumes one after the other, logs each failure and returns the first one. -/
def closeEach [Medium] : List Nat → Action (Session × Host) (Except DiskError Unit)
  | [] => return .ok ()
  | id :: rest => do
    match ← Action.attempt (close id) with
    | .ok () => closeEach rest
    | .error e =>
      modify fun (session, host) => (session, host.warn (.volumeNotClosed id e))
      let _ ← closeEach rest
      return .error e

/-- Closes every volume and leaves no slot. -/
def closeAll [Medium] : Action (Session × Host) Unit := do
  let ids ← Action.ask fun (session, _) => .ok session.volumes
  let result ← closeEach ids
  modify fun (_, host) => (empty, host)
  Action.ofExcept result

/-- Ends a session: its caches are disposed of in the order of their slots. -/
def dispose [Medium] (session : Session) (host : Host) : Host :=
  session.slots.foldl
    (fun host slot =>
      match slot with
      | some volume => volume.cache.dispose host
      | none => host) host

end Session

end Diskette
