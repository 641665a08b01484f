import Diskette.Proofs.ExactStore
import Diskette.Proofs.Pool.Parallel

/-!
# Pools before disks that may be protected

A pool without unrecorded changes is a store before every disk of which each block can be read.
Before a protected disk nothing is ever left to be written back, so blocks can be recycled there
too.

* `Serves`: what a pool shows that can be used as a store.
* `servesStore`: it behaves as an array of blocks, and fails only where it has to.
* `Serves.sync_ends`, `Serves.run_sync`: what a sync brings to the disk.
-/

namespace Diskette

open Diskette.Action

variable {δ : Type} [Disk δ] {size : Nat} {readOnly : Bool} {Holds : δ → (Nat → Block) → Prop}

/-- A disk agrees with itself. -/
theorem FaithfulDisk.disksAgree (hD : FaithfulDisk size readOnly Holds) :
    DisksAgree fun disk disk' : δ => disk' = disk ∧ ∃ c, Holds disk c where
  blocks_eq h := congrArg Disk.blocks h.1
  readOnly_eq h := congrArg Disk.readOnly h.1
  read block := Preserves.parallel fun _ ⟨c, h⟩ =>
    (hD.read_ends h block).mono fun _ _ hs => ⟨c, hs.1⟩
  write block data := Preserves.parallel fun _ ⟨_, h⟩ => (hD.write_ends h block data).mono
    fun r _ hs => by
      cases r with
      | ok => exact ⟨_, hs⟩
      | error => exact ⟨_, hs⟩
  flush := Preserves.parallel fun _ ⟨c, h⟩ => (hD.flush_ends h).mono fun _ _ hs => ⟨c, hs⟩

namespace Pool

variable {state : Pool × δ} {shown : Nat → Block} {block : Nat}

/-- The pool and the disk behind it show the array, and whatever has to be written back can be. -/
structure Serves (size : Nat) (readOnly : Bool) (Holds : δ → (Nat → Block) → Prop)
    (state : Pool × δ) (shown : Nat → Block) : Prop
    extends Shows size readOnly Holds state shown ∅ where
  writable : state.1.Writable readOnly

omit [Disk δ] in
/-- A new pool serves what is on the disk. -/
theorem serves_ofSize {disk : δ} {base : Nat → Block} (h : Holds disk base) (count : Nat) :
    Serves size readOnly Holds (ofSize count, disk) base :=
  ⟨shows_ofSize h count, writable_ofSize count⟩

omit [Disk δ] in
/-- The pool serves the same before another disk that holds what this one does. -/
theorem Serves.onDisk {Holds' : δ → (Nat → Block) → Prop} {pool : Pool} {disk disk' : δ}
    (h : Serves size readOnly Holds (pool, disk) shown)
    (hd : ∀ {base}, Holds disk base → Holds' disk' base) :
    Serves size readOnly Holds' (pool, disk') shown := by
  obtain ⟨base, hbase, hc⟩ := h.caches
  exact ⟨⟨h.valid, ⟨base, hd hbase, hc⟩, h.unmarked_of_readOnly⟩, h.writable⟩

/-- Whatever is asked of the pool, before a protected disk nothing is left to be written back. -/
theorem Serves.writable_ends {α : Type} {act : Action (Pool × δ) α}
    (hD : FaithfulDisk size readOnly Holds) (h : Serves size readOnly Holds state shown)
    (hact : ∀ {R : Pool × δ → Pool × δ → Prop}, Alternates R → Parallel R act act) :
    Ends act state fun _ s' => s'.1.Writable readOnly := by
  have halternates : Alternates (Paired (readOnly = true)
      fun disk disk' : δ => disk' = disk ∧ ∃ c, Holds disk c) :=
    alternates hD.disksAgree fun hro _ _ ⟨_, _, hholds⟩ => (hD.readOnly_eq hholds).trans hro
  obtain ⟨base, hbase, -⟩ := h.caches
  exact ends_iff.mpr
    (agree_iff.mp (hact halternates ⟨rfl, ⟨rfl, base, hbase⟩, h.writable⟩)).2.cleanAt

/-- A pool that serves an array behaves as that array. -/
theorem servesStore (hD : ArrayDisk size readOnly Holds) :
    ExactStore size readOnly (fun state : Pool × δ => Serves size readOnly Holds state) where
  read_ends h block := by
    refine ((readBlock_ends hD.toFaithfulDisk h.toShows block).and (h.writable_ends
      hD.toFaithfulDisk fun hR _ _ hst => hR.readBlock hst block)).mono ?_
    exact fun r s' hs => ⟨⟨hs.1.1, hs.2⟩, hs.1.2⟩
  write_ends h block data := by
    refine ((writeBlock_ends hD.toFaithfulDisk h.toShows block data).and (h.writable_ends
      hD.toFaithfulDisk fun hR _ _ hst => hR.writeBlock hst block data)).mono ?_
    rintro (e | ⟨⟩) s' ⟨hs', hw⟩
    · exact ⟨hs', hw⟩
    · rw [Set.empty_sdiff] at hs'
      exact ⟨hs', hw⟩
  read_outcome h block := readBlock_outcome hD h.toShows h.writable block
  write_outcome h block data := writeBlock_outcome hD h.toShows h.writable block data

/-- A sync that succeeds brings everything to the disk. -/
theorem Serves.sync_ends (hD : ArrayDisk size readOnly Holds)
    (h : Serves size readOnly Holds state shown) :
    Ends sync state fun r s' => Serves size readOnly Holds s' shown ∧
      (r = .ok () → Holds s'.2 shown) := by
  refine ((Pool.sync_ends hD.toFaithfulDisk h.toShows).and (h.writable_ends
    hD.toFaithfulDisk fun hR _ _ hst => hR.sync hst)).mono ?_
  rintro r s' ⟨⟨hs', hok⟩, hw⟩
  refine ⟨⟨hs', hw⟩, fun hr => ?_⟩
  obtain ⟨base, hbase, heq⟩ := hok hr
  rwa [funext fun block => heq block (Set.notMem_empty block)] at hbase

/-- A sync succeeds if a flush does. -/
theorem Serves.run_sync (hD : ArrayDisk size readOnly Holds)
    (h : Serves size readOnly Holds state shown)
    (hflush : ∀ {disk c}, Holds disk c → ∃ disk', Disk.flush.run disk = .ok () disk') :
    ∃ s', sync.run state = .ok () s' ∧ Serves size readOnly Holds s' shown ∧ Holds s'.2 shown := by
  obtain ⟨⟨pool, disk⟩, hall⟩ : ∃ s', writeBackAll.run state = .ok () s' :=
    writeBackFrom_ok hD _ h.toShows h.writable
  obtain ⟨base, hbase, -⟩ := ((writeBackAll_ends hD.toFaithfulDisk h.toShows).of_ok hall).1.caches
  obtain ⟨disk', hflushed⟩ := hflush hbase
  have hrun : sync.run state = .ok () (pool, disk') :=
    (run_bind_of_ok hall _).trans (run_onSecond_of_ok hflushed)
  obtain ⟨hserves, hholds⟩ := (h.sync_ends hD).of_ok hrun
  exact ⟨_, hrun, hserves, hholds rfl⟩

end Pool

end Diskette
