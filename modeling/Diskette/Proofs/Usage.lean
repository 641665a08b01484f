import Diskette.Proofs.Cache.Strategy
import Diskette.Proofs.Device.RoundTrip
import Diskette.Proofs.Tasks
import Diskette.Session

/-!
# Ways to use a device

A device is used by itself or through caches, one after the other, and a cache through requests and
tasks. `Used` are the states that this leads to, in any order and whatever comes of each step,
together with the number of blocks that were written to the device so far. Each step has a medium of
its own, one of those that are `good`. Blocks are counted where they pass: before a pool by a device
that counts, before a mapping by a mapping that counts, as a change of the mapping is in the file at
once.

* `Counted`: something with a count of the writes that succeeded.
* `Cache.writesAfter`: the blocks that reach the device when a cache is used.
* `Used`: the states of a device that is used.
* `Ended.exists_dispose`: every end is that of a device by itself that is dropped.
-/

namespace Diskette

open Diskette.Action

variable {α σ : Type}

/-- A state, and how many writes succeeded so far. -/
structure Counted (σ : Type) where
  inner : σ
  count : Nat

namespace Counted

/-- Runs an action on the state, which does not count. -/
def inside (act : Action σ α) : Action (Counted σ) α :=
  zoom (fun ⟨inner, count⟩ => (inner, fun inner => ⟨inner, count⟩)) act

/-- Counts one more. -/
def tick : Action (Counted σ) Unit := modify fun ⟨inner, count⟩ => ⟨inner, count + 1⟩

instance [Disk σ] : Disk (Counted σ) where
  blocks counted := Disk.blocks counted.inner
  readOnly counted := Disk.readOnly counted.inner
  read block := inside (Disk.read block)
  write block data := do
    inside (Disk.write block data)
    tick
  flush := inside Disk.flush

instance [BlockCache σ] : BlockCache (Counted σ) where
  blocks counted := BlockCache.blocks counted.inner
  readOnly counted := BlockCache.readOnly counted.inner
  acquire block := inside (BlockCache.acquire block)
  data handle counted := BlockCache.data handle counted.inner
  update handle change := do
    inside (BlockCache.update handle change)
    tick
  release handle dirty commit := inside (BlockCache.release handle dirty commit)
  markDirty block := inside (BlockCache.markDirty block)
  sync := inside BlockCache.sync

end Counted

/-- One more than `n` after a success. -/
def countOk (r : Except DiskError α) (n : Nat) : Nat := if r.isOk then n + 1 else n

/-- The number of blocks that were written to the device once the cache has been used in some way,
when there were `n` before. -/
def Cache.writesAfter [Medium] (act : ∀ (κ : Type) [BlockCache κ], Action κ α) (n : Nat) :
    Cache × Host → Nat
  | (⟨.pooled pool, device⟩, host) =>
    ((act (Pool × Counted (Device × Host))).stateAfter (pool, ⟨(device, host), n⟩)).2.count
  | (⟨.mapped mapping, device⟩, host) =>
    ((act (Counted (Mapping × Device × Host))).stateAfter ⟨(mapping, device, host), n⟩).count

/-- The number of blocks that were written after an operation. -/
def Device.Operation.writesAfter [Medium] (operation : Operation) (n : Nat)
    (state : Device × Host) : Nat :=
  match operation with
  | .write _ _ | .zeroBlock _ => countOk (operation.perform.outcome state) n
  | _ => n

/-- A device as it stands: by itself, or with a cache in front of it. -/
inductive Mount where
  | bare (device : Device)
  | cached (cache : Cache)

/-- The states that the use of a device on good media leads to, and how many blocks were written to
the device on the way. -/
inductive Used (good : Medium → Prop) (device : Device) (host : Host) :
    Mount → Host → Nat → Prop
  | start : Used good device host (.bare device) host 0
  | operate [medium : Medium] (hg : good medium) {d d' : Device} {h h' : Host} {n : Nat}
    (hu : Used good device host (.bare d) h n) (operation : Device.Operation)
    (hs : operation.perform.stateAfter (d, h) = (d', h')) :
    Used good device host (.bare d') h' (operation.writesAfter n (d, h))
  /-- A pool is put before the device. -/
  | pool {d : Device} {h : Host} {n : Nat} (hu : Used good device host (.bare d) h n) (size : Nat) :
    Used good device host (.cached (.ofPool d size)) h n
  /-- The device is mapped. -/
  | map [medium : Medium] {d : Device} {h h' : Host} {n : Nat} {c : Cache}
    (hu : Used good device host (.bare d) h n) (hm : (Cache.ofMapping d).run h = .ok c h') :
    Used good device host (.cached c) h' n
  | request [medium : Medium] (hg : good medium) {c c' : Cache} {h h' : Host} {n : Nat}
    (hu : Used good device host (.cached c) h n) (request : Request)
    (hs : request.perform.stateAfter (c, h) = (c', h')) :
    Used good device host (.cached c') h' (Cache.writesAfter (fun _ _ => request.perform) n (c, h))
  | task [medium : Medium] (hg : good medium) {c c' : Cache} {h h' : Host} {n : Nat}
    (hu : Used good device host (.cached c) h n) (task : Task)
    (hs : task.perform.stateAfter (c, h) = (c', h')) :
    Used good device host (.cached c') h' (Cache.writesAfter (fun _ _ => task.perform) n (c, h))
  /-- One block of a mapping is brought to the medium. -/
  | syncBlock [medium : Medium] {m m' : Mapping} {d d' : Device} {h h' : Host} {n : Nat}
    (hu : Used good device host (.cached ⟨.mapped m, d⟩) h n) (block : Nat)
    (hs : (Mapping.syncBlock block).stateAfter (m, d, h) = (m', d', h')) :
    Used good device host (.cached ⟨.mapped m', d'⟩) h' n
  /-- The cache is dropped, and its device is not. -/
  | detach [medium : Medium] (hg : good medium) {c : Cache} {d : Device} {h h' : Host} {n : Nat}
    (hu : Used good device host (.cached c) h n) (hs : c.detach h = (d, h')) :
    Used good device host (.bare d) h'
      (Cache.writesAfter (fun _ _ => BlockCache.sync) n (c, Cache.warnInUse c.strategy h))

/-- What the use of a device on good media comes to in the end, when it is dropped or closed together
with any cache before it. The medium is that of the end. -/
inductive Ended (good : Medium → Prop) (device : Device) (host : Host) [Medium] :
    Host → Nat → Prop
  | dropped {d : Device} {h : Host} {n : Nat} (hu : Used good device host (.bare d) h n) :
    Ended good device host (d.dispose h) n
  | closed {d : Device} {h : Host} {n : Nat} (hu : Used good device host (.bare d) h n) :
    Ended good device host (d.close.stateAfter h) n
  /-- The device was to be mapped and cannot be. -/
  | unmapped {d : Device} {h h' : Host} {n : Nat} {e : DiskError}
    (hu : Used good device host (.bare d) h n) (hm : (Cache.ofMapping d).run h = .error e h') :
    Ended good device host h' n
  | cacheDropped {c : Cache} {h : Host} {n : Nat} (hu : Used good device host (.cached c) h n) :
    Ended good device host (c.dispose h)
      (Cache.writesAfter (fun _ _ => BlockCache.sync) n (c, Cache.warnInUse c.strategy h))
  | cacheClosed {c c' : Cache} {h h' : Host} {n : Nat} (hu : Used good device host (.cached c) h n)
    (hs : BlockCache.sync.stateAfter (c, h) = (c', h')) :
    Ended good device host ((Session.closeCache c).stateAfter h)
      (Cache.writesAfter (fun _ _ => BlockCache.sync)
        (Cache.writesAfter (fun _ _ => BlockCache.sync) n (c, h))
        (c', Cache.warnInUse c'.strategy h'))

section

variable [medium : Medium]

theorem Device.stateAfter_close (device : Device) (host : Host) :
    device.close.stateAfter host =
      (flush.stateAfter (device, host)).1.dispose (flush.stateAfter (device, host)).2 := by
  unfold stateAfter EStateM.run close
  cases flush (device, host) <;> rfl

theorem Session.stateAfter_closeCache (cache : Cache) (host : Host) :
    (closeCache cache).stateAfter host =
      (BlockCache.sync.stateAfter (cache, host)).1.dispose
        (BlockCache.sync.stateAfter (cache, host)).2 := by
  unfold stateAfter EStateM.run closeCache
  cases BlockCache.sync (cache, host) <;> rfl

/-- What an action returns does not matter to the count. -/
theorem Cache.writesAfter_bind_pure {β : Type} (act : ∀ (κ : Type) [BlockCache κ], Action κ α)
    (f : α → β) (n : Nat) (state : Cache × Host) :
    Cache.writesAfter (fun κ _ => act κ >>= fun a => pure (f a)) n state =
      Cache.writesAfter act n state := by
  obtain ⟨⟨strategy, device⟩, host⟩ := state
  cases strategy with
  | pooled pool =>
    exact congrArg (fun state : Pool × Counted (Device × Host) => state.2.count)
      (stateAfter_bind_pure f)
  | mapped mapping => exact congrArg Counted.count (stateAfter_bind_pure f)

/-- Every end on a good medium is that of a device that was used in some way and then dropped. -/
theorem Ended.exists_dispose {good : Medium → Prop} {device : Device} {host after : Host} {n : Nat}
    (h : Ended good device host after n) (hg : good medium) :
    ∃ last before, Used good device host (.bare last) before n ∧ after = last.dispose before := by
  cases h with
  | dropped hu => exact ⟨_, _, hu, rfl⟩
  | closed hu => exact ⟨_, _, .operate hg hu .flush rfl, Device.stateAfter_close ..⟩
  | @unmapped d h _ _ _ hu hm =>
    refine ⟨d, h, hu, ?_⟩
    unfold EStateM.run Cache.ofMapping at hm
    split at hm
    · cases hm
    · cases hm
      rfl
  | @cacheDropped c h _ hu => exact ⟨_, _, .detach hg hu rfl, c.dispose_eq_detach h⟩
  | @cacheClosed c c' h h' _ hu hs =>
    have hsynced := Used.request hg hu .sync ((stateAfter_bind_pure fun _ => Reply.done).trans hs)
    unfold Request.perform at hsynced
    rw [Cache.writesAfter_bind_pure] at hsynced
    refine ⟨_, _, .detach hg hsynced rfl, ?_⟩
    rw [Session.stateAfter_closeCache, hs]
    exact c'.dispose_eq_detach h'

end

end Diskette
