import Diskette.Proofs.Cache.Mapped
import Diskette.Proofs.Cache.Strategy
import Diskette.Proofs.Fork.Parallel

/-!
# A mapping and a pool before copies of an image

The mapping has every change in its file at once, the pool has some of them only in its buffers. So
the files differ, but not around the blocks, and what the pool shows is what the file of the mapping
holds. A change is known to both: the device of the mapping is marked as changed, and the pool has
a device that is or a buffer to be written back. A sync makes the files the same, and the checksum
is computed anew in both or in neither.

* `Alike`: how the two are related.
* `Alike.readBlock`, `Alike.writeBlock`, `Alike.sync`: they agree and stay related.
* `Alike.dispose`: they leave the same file.
-/

namespace Diskette.Cache

open Diskette.Action Device

variable {layout : Layout.Sequential} {storage storage' : Storage} {readOnly : Bool}
  {direct : Mapping × Device × Host} {buffered : Pool × Device × Host}

/-- A mapping and a pool that were used in the same way before copies of a plain image. -/
structure Alike (layout : Layout.Sequential) (storage storage' : Storage) (readOnly : Bool)
    (direct : Mapping × Device × Host) (buffered : Pool × Device × Host) : Prop where
  displays : Displays layout storage readOnly direct.2
    (bytesAt layout.position (contents direct.2))
  mapped : storage.mapped = true
  dirty_lt (block : Nat) (h : block ∈ direct.1.dirty) : block < layout.blocks
  /-- The pool shows what the file of the mapping holds. -/
  shows : Pool.Shows layout.blocks readOnly (Displays layout storage' readOnly) buffered
    (bytesAt layout.position (contents direct.2)) ∅
  /-- Around the blocks the files are the same, and both know of a change or neither does. -/
  follows : Pool.Follows (fun state => Plain layout state ∧ Twin layout direct.2 state)
    (fun state => state.1.modified = true) (direct.2.1.modified = true) buffered

theorem Alike.storage_mapped (h : Alike layout storage storage' readOnly direct buffered) :
    direct.2.1.storage.mapped = true := h.displays.storage_eq ▸ h.mapped

/-- The files are the same if what the devices hold is. -/
theorem Alike.same_file (h : Alike layout storage storage' readOnly direct buffered)
    (hc : contents buffered.2 = contents direct.2) :
    buffered.2.2.contents storage'.file = direct.2.2.contents storage.file := by
  obtain ⟨base, hbase, -⟩ := h.shows.caches
  rw [← h.displays.storage_eq, ← hbase.storage_eq]
  exact hc

/-- Nothing is to be written back to an image that is write-protected. -/
theorem Alike.writable (h : Alike layout storage storage' readOnly direct buffered) :
    buffered.1.Writable readOnly := by
  intro hro slot
  by_contra hdirty
  have hmodified := h.follows.touched_iff.mp (.inr ⟨slot, hdirty⟩)
  have hfalse := h.displays.readOnly_eq hmodified
  rw [h.displays.protected_eq, hro] at hfalse
  cases hfalse

/-! ## Blocks -/

theorem Alike.readBlock (h : Alike layout storage storage' readOnly direct buffered) (block : Nat) :
    Agree (BlockCache.readBlock block) direct (BlockCache.readBlock block) buffered
      fun _ => Alike layout storage storage' readOnly := by
  have hD := plainDisk layout storage' readOnly
  have hdirect := ends_iff.mp
    (Mapping.readBlock_ends h.displays.toSited h.storage_mapped block)
  have hbuffered := Pool.readBlock_outcome hD h.shows h.writable block
  obtain ⟨hshows, -⟩ := ends_iff.mp (Pool.readBlock_ends hD.toFaithfulDisk h.shows block)
  have hfollows := ends_iff.mp
    (Pool.readBlock_follows hD.toFaithfulDisk (watched layout direct.2) h.shows h.follows block)
  refine agree_iff.mpr ⟨hbuffered.trans hdirect.2.symm, ?_⟩
  rw [hdirect.1]
  exact { h with shows := hshows, follows := hfollows }

/-- A block was written in the file of the mapping and is in a buffer of the pool. -/
theorem Alike.wrote (h : Alike layout storage storage' readOnly direct buffered) {block : Nat}
    {bytes : Block} {direct' : Mapping × Device × Host} {buffered' : Pool × Device × Host}
    (hb : block < layout.blocks) (hro : readOnly = false)
    (hdirty : direct'.1.dirty = direct.1.dirty.insert block)
    (hwrote : Wrote layout block bytes direct.2 direct'.2)
    (hshows : Pool.Shows layout.blocks readOnly (Displays layout storage' readOnly) buffered'
      (Function.update (bytesAt layout.position (contents direct.2)) block bytes) ∅)
    (hfollows : Pool.Follows (fun state => Plain layout state ∧ Twin layout direct.2 state)
      (fun state => state.1.modified = true) True buffered') :
    Alike layout storage storage' readOnly direct' buffered' := by
  have hplain := h.displays.wrote hwrote (h.displays.protected_eq.trans hro)
  have hdevice := hwrote.device_eq
  refine ⟨⟨hplain, ?_, ?_, rfl⟩, h.mapped, fun other hother => ?_, ?_, ?_, ?_⟩
  · rw [hdevice]
    exact h.displays.storage_eq
  · rw [hdevice]
    exact h.displays.protected_eq
  · rw [hdirty, Std.TreeSet.mem_insert] at hother
    rcases hother with heq | hmem
    · rwa [← Nat.compare_eq_eq.mp heq]
    · exact h.dirty_lt other hmem
  · rwa [h.displays.bytesAt_wrote hwrote]
  · exact ⟨hfollows.inv.1, (hwrote.twin hb).symm.trans hfollows.inv.2⟩
  · refine hfollows.touched_iff.trans (iff_of_true trivial ?_)
    rw [hdevice]
    rfl

/-- Both write a block, or refuse to for the same reason. -/
theorem Alike.writeBlock (h : Alike layout storage storage' readOnly direct buffered) (block : Nat)
    (bytes : Block) :
    Agree (BlockCache.writeBlock block bytes) direct (BlockCache.writeBlock block bytes) buffered
      fun _ => Alike layout storage storage' readOnly := by
  have hD := plainDisk layout storage' readOnly
  have hdirect := ends_iff.mp
    (Mapping.writeBlock_ends h.displays.toSited h.storage_mapped block bytes)
  have hbuffered := Pool.writeBlock_outcome hD h.shows h.writable block bytes
  have hshows := ends_iff.mp (Pool.writeBlock_ends hD.toFaithfulDisk h.shows block bytes)
  have hfollows := ends_iff.mp
    (Pool.writeBlock_follows hD.toFaithfulDisk (watched layout direct.2) h.shows h.follows block
      bytes)
  rw [h.displays.protected_eq] at hdirect
  -- A refusal leaves the mapping as it was, and of the pool what it shows.
  have hrefused {e : DiskError}
      (hbuffered : (BlockCache.writeBlock block bytes).outcome buffered = .error e)
      (hdirect : (BlockCache.writeBlock block bytes).outcome direct = .error e ∧
        (BlockCache.writeBlock block bytes).stateAfter direct = direct) :
      Agree (BlockCache.writeBlock block bytes) direct (BlockCache.writeBlock block bytes) buffered
        fun _ => Alike layout storage storage' readOnly := by
    rw [hbuffered] at hshows hfollows
    refine agree_iff.mpr ⟨hbuffered.trans hdirect.1.symm, ?_⟩
    rw [hdirect.2]
    exact { h with shows := hshows, follows := by simpa using hfollows }
  by_cases hb : block < layout.blocks
  · simp only [if_pos hb] at hdirect hbuffered
    cases readOnly with
    | true => exact hrefused hbuffered hdirect
    | false =>
      obtain ⟨hok, hdirty, hwrote⟩ : _ = Except.ok () ∧ _ ∧ _ := hdirect
      obtain hbuffered : _ = Except.ok () := hbuffered
      rw [hbuffered] at hshows hfollows
      simp only [Set.empty_sdiff] at hshows
      refine agree_iff.mpr ⟨hbuffered.trans hok.symm, h.wrote hb rfl hdirty hwrote hshows ?_⟩
      simpa using hfollows
  · simp only [if_neg hb] at hdirect hbuffered
    exact hrefused hbuffered hdirect

/-! ## Syncs -/

/-- A sync succeeds and makes the files the same. -/
theorem Alike.sync (h : Alike layout storage storage' readOnly direct buffered) :
    Agree BlockCache.sync direct BlockCache.sync buffered fun r s t => r = .ok () ∧
      Alike layout storage storage' readOnly s t ∧ s.2.1.modified = false ∧
      t.2.1.modified = false ∧ contents t.2 = contents s.2 := by
  have hD := plainDisk layout storage' readOnly
  obtain ⟨mapping, state⟩ := direct
  obtain ⟨mapping', hdirty, hdirect⟩ := Mapping.run_syncDirty h.displays.toSited h.dirty_lt
  obtain ⟨⟨pool, other⟩, hbuffered, hshows, hfollows, hclean⟩ :=
    Pool.run_writeBackAll hD (watched layout state) h.shows h.writable h.follows
  have hflush : BlockCache.sync.run (mapping, state) =
      (onSecond Device.flush).run (mapping', state) := run_bind_of_ok hdirect _
  have hflush' : BlockCache.sync.run buffered = (onSecond Disk.flush).run (pool, other) :=
    run_bind_of_ok hbuffered _
  -- With nothing left to write back, the disk of the pool holds what the pool shows.
  obtain ⟨base, hbase, hall⟩ := hshows.disk_eq_all hclean
  have hbytes : bytesAt layout.position (contents other) =
      bytesAt layout.position (contents state) :=
    hbase.shown_eq.trans (funext fun block => hall block (Set.notMem_empty _))
  have htwin : Twin layout state other := hfollows.inv.2
  have hcontents := htwin.contents_eq hbytes
  -- Whether the checksum is computed anew depends on the mark, so the marks have to agree as well.
  have hmodified : other.1.modified = state.1.modified := by
    have htouched := hfollows.touched_iff
    simp only [Pool.Touched, hclean, not_true_eq_false, exists_false, or_false] at htouched
    exact Bool.eq_iff_iff.mpr htouched
  obtain ⟨hok, hplain, hfresh, hstorage, hro, hsame, -⟩ := ends_iff.mp h.displays.flush_ends
  obtain ⟨hok', hplain', hfresh', -, -, -, -⟩ := ends_iff.mp hbase.flush_ends
  obtain ⟨htwin', hcontents'⟩ := h.displays.flush_twin hbase.toPlain htwin hmodified hcontents
  rw [agree_congr hflush hflush', agree_iff, outcome_onSecond, outcome_onSecond, stateAfter_onSecond,
    stateAfter_onSecond]
  refine ⟨hok'.trans hok.symm, hok, ⟨?_, h.mapped, fun block hm => h.dirty_lt block (hdirty block hm),
    ?_, ⟨hplain', htwin'⟩, ?_⟩, hfresh, hfresh', hcontents'⟩
  · exact ⟨hplain, hstorage.trans h.displays.storage_eq, hro.trans h.displays.protected_eq, rfl⟩
  · rw [hsame]
    obtain ⟨base, hbase, hc⟩ := hshows.caches
    exact ⟨hshows.valid, ⟨base, ends_iff.mp (hD.flush_ends hbase), hc⟩,
      hshows.unmarked_of_readOnly⟩
  · have hdirty : ¬ ∃ slot, ¬ pool.CleanAt slot := by
      rintro ⟨slot, hdirty⟩
      exact hdirty (hclean slot)
    refine iff_of_false (not_or.mpr ⟨?_, hdirty⟩) ?_
    · exact Bool.eq_false_iff.mp hfresh'
    · exact Bool.eq_false_iff.mp hfresh

/-! ## The end -/

theorem dispose_of_sync {cache cache' : Cache} {host host' : Host}
    (h : BlockCache.sync.run (cache, warnInUse cache.strategy host) = .ok () (cache', host'))
    (hm : cache'.device.modified = false) : cache.dispose host = host' := by
  have hflush := run_flush_of_not_modified host' hm
  unfold EStateM.run at h hflush
  unfold Cache.dispose Device.dispose
  simp only [h, hflush]

/-- A warning is no change of a file. -/
theorem Alike.warn {pool : Pool} {device : Device} {host : Host}
    (h : Alike layout storage storage' readOnly direct (pool, device, host)) (warning : Warning) :
    Alike layout storage storage' readOnly direct (pool, device, host.warn warning) := by
  have hplain (hp : Plain layout (device, host)) : Plain layout (device, host.warn warning) :=
    { hp with backed := ⟨hp.backed.1, hp.backed.2⟩ }
  obtain ⟨base, hbase, hc⟩ := h.shows.caches
  have hwarned : Displays layout storage' readOnly (device, host.warn warning) base :=
    ⟨hplain hbase.toPlain, hbase.storage_eq, hbase.protected_eq, hbase.shown_eq⟩
  have htwin := h.follows.inv.2
  exact { h with
    shows := ⟨h.shows.valid, ⟨base, hwarned, hc⟩, h.shows.unmarked_of_readOnly⟩
    follows := ⟨⟨hplain h.follows.inv.1, htwin.readOnly_eq, htwin.envelope_eq, htwin.size_eq,
      htwin.byte_eq⟩, h.follows.touched_iff⟩ }

/-- What the caches leave in the files when they end is the same. -/
theorem Alike.dispose (h : Alike layout storage storage' readOnly direct buffered) :
    ((ofState buffered).1.dispose (ofState buffered).2).contents storage'.file =
      ((ofMapped direct).1.dispose (ofMapped direct).2).contents storage.file := by
  obtain ⟨mapping, device, host⟩ := direct
  obtain ⟨pool, device', host'⟩ := buffered
  have hwarned : Alike layout storage storage' readOnly (mapping, device, host)
      (pool, device', warnPinned pool host') := by
    unfold warnPinned
    split
    · exact h
    · exact h.warn _
  rcases hwarned.sync.cases with ⟨⟨⟩, s, t, hs, ht, hq⟩ | ⟨e, s, t, hs, ht, hq⟩
  · obtain ⟨-, hst, hm, hm', hcontents⟩ := hq
    have hdirect : BlockCache.sync.run (ofMapped (mapping, device, host)) =
        .ok () (ofMapped s) := by
      rw [embeds_ofMapped.sync, hs]
    have hbuffered : BlockCache.sync.run (ofState (pool, device', warnPinned pool host')) =
        .ok () (ofState t) := by
      rw [embeds_ofState.sync, ht]
    have hleft : (ofMapped (mapping, device, host)).1.dispose host = s.2.2 :=
      dispose_of_sync hdirect hm
    have hleft' : (ofState (pool, device', host')).1.dispose host' = t.2.2 :=
      dispose_of_sync hbuffered hm'
    have hsame := hst.same_file hcontents
    rwa [← hleft, ← hleft'] at hsame
  · cases hq.1

end Diskette.Cache
