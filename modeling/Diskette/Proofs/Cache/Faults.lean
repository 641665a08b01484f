import Diskette.Proofs.Cache.Strategy
import Diskette.Proofs.Device.Faults
import Diskette.Proofs.Pool.Teardown
import Diskette.Session

/-!
# What a sync can fail with

Where the host never fails, a cache that cannot be synced fails with an error of its image,
whichever strategy it has and whatever became of the file. So a volume that cannot be closed properly
is not taken for one that is not open.

* `Pool.throws_sync`, `Mapping.throws_sync`: either strategy.
* `Cache.throws_closeCache`: a cache that is closed.
-/

namespace Diskette

open Diskette.Action

namespace Pool

variable {δ : Type} [Disk δ] {P : DiskError → Prop}

private theorem throws_writeBack
    (hwrite : ∀ block data, Throws P (Disk.write block data : Action δ Unit)) (slot : Nat) :
    Throws P (writeBack slot : Action (Pool × δ) Unit) := by
  rintro ⟨pool, disk⟩
  rcases writeBack_cases pool disk slot with
    ⟨-, hrun⟩ | ⟨block, data, -, ⟨disk', -, hrun⟩ | ⟨e, disk', hrefused, hrun⟩⟩
  · exact (ends_of_run_eq_ok hrun).mpr nofun
  · exact (ends_of_run_eq_ok hrun).mpr nofun
  · exact (ends_of_run_eq_error hrun).mpr ((hwrite block data disk).of_error hrefused)

/-- A pool fails with the errors of its disk. -/
theorem throws_sync (hwrite : ∀ block data, Throws P (Disk.write block data : Action δ Unit))
    (hflush : Throws P (Disk.flush : Action δ Unit)) :
    Throws P (sync : Action (Pool × δ) Unit) := by
  have hfrom (count : Nat) :
      ∀ slot, Throws P (writeBackFrom count slot : Action (Pool × δ) Unit) := by
    induction count with
    | zero => exact fun _ => throws_of_run_eq_ok fun s => ⟨(), s, rfl⟩
    | succ count ih => exact fun slot => (throws_writeBack hwrite slot).bind fun _ => ih (slot + 1)
  have hall : Throws P (writeBackAll : Action (Pool × δ) Unit) := fun state =>
    hfrom state.1.entries.size 0 state
  exact hall.bind fun _ => hflush.zoom

end Pool

namespace Mapping

private theorem ofImage_of_mappedOffset {device : Device} {block : Nat} {e : DiskError}
    (h : device.mappedOffset block = .error e) : e.OfImage := by
  unfold Device.mappedOffset at h
  cases hb : checkBlock block device.blocks with
  | error e' =>
    rw [hb] at h
    cases h
    exact ofImage_of_checkBlock hb
  | ok _ =>
    rw [hb] at h
    cases ho : device.container.blockOffset? block with
    | some offset =>
      simp only [ho] at h
      cases h
    | none =>
      simp only [ho] at h
      cases h
      trivial

private theorem ofImage_of_syncRange {storage : Storage} {host : Host} {offset len : Nat}
    {e : DiskError} (h : storage.syncRange host offset len = .error e) : e.OfImage := by
  unfold Storage.syncRange at h
  split at h
  · cases h
  · cases hrange : storage.checkRange offset len with
    | error e' =>
      rw [hrange] at h
      cases h
      exact Storage.ofImage_of_checkRange hrange
    | ok _ =>
      rw [hrange, Medium.serve_reliable] at h
      cases h

private theorem ofImage_of_syncBlock {device : Device} {host : Host} {block : Nat} {e : DiskError}
    (h : device.syncBlock host block = .error e) : e.OfImage := by
  unfold Device.syncBlock at h
  cases hoffset : device.mappedOffset block with
  | ok offset =>
    rw [hoffset] at h
    exact ofImage_of_syncRange h
  | error e' =>
    rw [hoffset] at h
    cases h
    exact ofImage_of_mappedOffset hoffset

theorem throws_sync : Throws DiskError.OfImage sync := by
  have hblocks (blocks : List Nat) : Throws DiskError.OfImage (syncBlocks blocks) := by
    induction blocks with
    | nil => exact throws_of_run_eq_ok fun s => ⟨(), s, rfl⟩
    | cons block rest ih =>
      have hblock : Throws DiskError.OfImage (syncBlock block) :=
        (throws_ask fun _ _ h => ofImage_of_syncBlock h).bind fun _ =>
          throws_of_run_eq_ok fun _ => ⟨(), _, rfl⟩
      exact hblock.bind fun _ => ih
  have hdirty : Throws DiskError.OfImage syncDirty := fun state => hblocks state.1.dirty.toList state
  exact hdirty.bind fun _ => Device.throws_flush.zoom

end Mapping

namespace Cache

theorem throws_sync : Throws DiskError.OfImage (BlockCache.sync : Action (Cache × Host) Unit) := by
  rintro ⟨⟨strategy, device⟩, host⟩
  cases strategy with
  | pooled pool =>
    refine (embeds_ofState.sync.ends_iff (s := (pool, device, host))).mpr ?_
    exact Pool.throws_sync Device.throws_write Device.throws_flush (pool, device, host)
  | mapped mapping =>
    refine (embeds_ofMapped.sync.ends_iff (s := (mapping, device, host))).mpr ?_
    exact Mapping.throws_sync (mapping, device, host)

/-- A cache that is closed fails with an error of its image. -/
theorem throws_closeCache (cache : Cache) : Throws DiskError.OfImage (Session.closeCache cache) := by
  intro host
  have hends := throws_sync (cache, host)
  unfold Ends EStateM.run at hends
  unfold Ends EStateM.run Session.closeCache
  dsimp only
  cases hr : BlockCache.sync (cache, host) with
  | ok _ after => exact nofun
  | error e after => rw [hr] at hends; exact hends

end Cache

end Diskette
