import Diskette.Cache.Mapping
import Diskette.Cache.Pool

/-!
# Caches

A cache of either strategy together with the device it stands before. A mapping works only on a
device whose blocks are parts of a mapped file; a pool works on every device.

* `run_ofMapping_of_supportsMapping`: on such a device a mapping starts clean.
* `dispose_eq_detach`: what ends with a cache besides its device.
-/

namespace Diskette

/-- How a cache gets at the blocks. -/
inductive Strategy where
  | pooled (pool : Pool)
  | mapped (mapping : Mapping)

/-- A cache and its device. -/
structure Cache where
  strategy : Strategy
  device : Device

namespace Cache

/-- A cache with a pool of `size` buffers, or the least number if that is more. -/
def ofPool (device : Device) (size : Nat) : Cache :=
  ⟨.pooled (Pool.ofSize (max size minPoolSize)), device⟩

/-- A cache over the mapping of a device. A device that has none is disposed of. -/
def ofMapping [Medium] (device : Device) : Action Host Cache := fun host =>
  if device.supportsMapping then .ok ⟨.mapped .clean, device⟩ host
  else
    let e := .unsupported (.noDirectMapping device.format)
    .error e (device.dispose host)

theorem run_ofMapping_of_supportsMapping [Medium] {device : Device} (host : Host)
    (h : device.supportsMapping = true) :
    (ofMapping device).run host = .ok ⟨.mapped .clean, device⟩ host := by
  simp [EStateM.run, ofMapping, h]

variable {α : Type}

/-- Runs an action of the pool. -/
@[inline] def runPooled (pool : Pool) (device : Device) (host : Host)
    (act : Action (Pool × Device × Host) α) : EStateM.Result DiskError (Cache × Host) α :=
  match act (pool, device, host) with
  | .ok a (pool, device, host) => .ok a (⟨.pooled pool, device⟩, host)
  | .error e (pool, device, host) => .error e (⟨.pooled pool, device⟩, host)

/-- Runs an action of the mapping. -/
@[inline] def runMapped (mapping : Mapping) (device : Device) (host : Host)
    (act : Action (Mapping × Device × Host) α) : EStateM.Result DiskError (Cache × Host) α :=
  match act (mapping, device, host) with
  | .ok a (mapping, device, host) => .ok a (⟨.mapped mapping, device⟩, host)
  | .error e (mapping, device, host) => .error e (⟨.mapped mapping, device⟩, host)

/-- Runs what a cache of either strategy can do. -/
@[inline] def run [Medium] (act : ∀ {κ : Type} [BlockCache κ], Action κ α) : Action (Cache × Host) α
  | (⟨.pooled pool, device⟩, host) => runPooled pool device host act
  | (⟨.mapped mapping, device⟩, host) => runMapped mapping device host act

/-- The bytes of a checked-out block. -/
def data (handle : Handle) : Cache × Host → Except DiskError Block
  | (⟨.pooled pool, device⟩, host) => Pool.data handle (pool, device, host)
  | (⟨.mapped mapping, device⟩, host) => Mapping.data handle (mapping, device, host)

instance [Medium] : BlockCache (Cache × Host) where
  blocks state := state.1.device.blocks
  readOnly state := state.1.device.readOnly
  acquire block := run (BlockCache.acquire block)
  data := data
  update handle change := run (BlockCache.update handle change)
  release handle dirty commit := run (BlockCache.release handle dirty commit)
  markDirty block := run (BlockCache.markDirty block)
  sync := run BlockCache.sync

/-! ## What only one strategy has -/

/-- The number of buffers of a pool. -/
def entries? (cache : Cache) : Option Nat :=
  match cache.strategy with
  | .pooled pool => some pool.entries.size
  | .mapped _ => none

/-- Whether a block has a buffer in the pool. -/
def resident? (cache : Cache) (block : Nat) : Option Bool :=
  match cache.strategy with
  | .pooled pool => some (pool.resident block)
  | .mapped _ => none

/-- The blocks of a mapping that were changed and not synced since, in ascending order. -/
def dirtyBlocks? (cache : Cache) : Option (List Nat) :=
  match cache.strategy with
  | .pooled _ => none
  | .mapped mapping => some mapping.dirty.toList

/-- Brings a block of a mapping to the medium. -/
def syncBlock? [Medium] (block : Nat) :
    Cache × Host → Option (EStateM.Result DiskError (Cache × Host) Unit)
  | (⟨.pooled _, _⟩, _) => none
  | (⟨.mapped mapping, device⟩, host) =>
    some (runMapped mapping device host (Mapping.syncBlock block))

/-! ## The end of a cache -/

/-- Logs that blocks of a pool are still checked out. -/
def warnPinned (pool : Pool) (host : Host) : Host :=
  if pool.pinned = 0 then host else host.warn (.blocksStillAcquired pool.pinned)

/-- The warning that a cache could not be synced. -/
def notSynced : Strategy → DiskError → Warning
  | .pooled _, e => .poolNotFlushed e
  | .mapped _, e => .mappingNotSynced e

/-- Logs what is wrong about ending a cache now. -/
def warnInUse : Strategy → Host → Host
  | .pooled pool, host => warnPinned pool host
  | .mapped _, host => host

/-- Ends a cache that only borrowed its device: it is synced, and a failure is logged. -/
def detach [Medium] (cache : Cache) (host : Host) : Device × Host :=
  let host := warnInUse cache.strategy host
  match BlockCache.sync (cache, host) with
  | .ok () (cache, host) => (cache.device, host)
  | .error e (cache, host) => (cache.device, host.warn (notSynced cache.strategy e))

/-- Ends a cache: it is synced, a failure is logged, and then its device is disposed of. -/
def dispose [Medium] (cache : Cache) (host : Host) : Host :=
  let host := warnInUse cache.strategy host
  match BlockCache.sync (cache, host) with
  | .ok () (cache, host) => cache.device.dispose host
  | .error e (cache, host) => cache.device.dispose (host.warn (notSynced cache.strategy e))

theorem dispose_eq_detach [Medium] (cache : Cache) (host : Host) :
    cache.dispose host = (cache.detach host).1.dispose (cache.detach host).2 := by
  unfold dispose detach
  dsimp only
  split <;> rfl

end Cache

end Diskette
