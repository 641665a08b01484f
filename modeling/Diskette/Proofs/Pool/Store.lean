import Diskette.Proofs.Pool.Actions

/-!
# Pools are stores

Before a disk of which every block can be read, a pool without unrecorded changes is a store: every
block of the disk can be read through it, whatever has to be recycled for it. What is recycled may
have to be written back, which needs a disk that can be written.

* `acquire_ok`, `run_acquire_of_le`: the blocks of the disk, and no others, can be checked out.
* `readBlock_outcome`, `writeBlock_outcome`: what comes of reading and of replacing a block.
* `arrayStore`: the pool behaves as an array of blocks.
-/

namespace Diskette.Pool

open Diskette.Action

variable {δ : Type} [Disk δ] {size : Nat} {readOnly : Bool} {Holds : δ → (Nat → Block) → Prop}
  {state state' : Pool × δ} {shown : Nat → Block} {unmarked : Set Nat} {block : Nat}

/-! ## Nothing fails -/

/-- Before a disk that refuses to be written no entry needs to be. -/
def Writable (readOnly : Bool) (pool : Pool) : Prop := readOnly = true → ∀ slot, pool.CleanAt slot

theorem writable_ofSize (count : Nat) : (ofSize count).Writable readOnly := by
  intro _ slot entry he
  simp only [ofSize, Array.getElem?_replicate] at he
  split at he
  · cases he
    rfl
  · cases he

theorem writeBack_ok (hD : ArrayDisk size readOnly Holds)
    (h : Shows size readOnly Holds state shown unmarked) (hw : state.1.Writable readOnly)
    (slot : Nat) : ∃ s', (writeBack slot).run state = .ok () s' := by
  obtain ⟨pool, disk⟩ := state
  obtain ⟨base, hbase, -⟩ := h.caches
  rcases h.valid.dirty_or_cleanAt slot with ⟨block, data, pins, he⟩ | hclean
  · have hb : block < size := h.valid.lt_size (blockAt_of_entry he)
    have hro : readOnly = false := by
      rw [← Bool.not_eq_true]
      exact fun hro => nomatch hw hro slot _ he
    obtain ⟨disk', hw⟩ : ∃ disk', Disk.write block data disk = .ok () disk' :=
      hD.write_ok hbase hb hro
    unfold EStateM.run writeBack
    simp only [he, hw]
    exact ⟨_, rfl⟩
  · exact ⟨_, run_writeBack_of_cleanAt hclean disk⟩

theorem writeBackFrom_ok (hD : ArrayDisk size readOnly Holds) (count : Nat) :
    ∀ {state : Pool × δ} {slot : Nat}, Shows size readOnly Holds state shown unmarked →
      state.1.Writable readOnly → ∃ s', (writeBackFrom count slot).run state = .ok () s' := by
  induction count with
  | zero => exact fun _ _ => ⟨_, rfl⟩
  | succ count ih =>
    intro state slot h hw
    obtain ⟨s', hrun⟩ := writeBack_ok hD h hw slot
    obtain ⟨hs', hwritten, -⟩ := (writeBack_ends hD.toFaithfulDisk h slot).of_ok hrun
    rw [writeBackFrom, run_bind_of_ok hrun]
    exact ih hs' fun hro i => hwritten.cleanAt (hw hro i)

theorem takeSlot_ok (hD : ArrayDisk size readOnly Holds)
    (h : Shows size readOnly Holds state shown unmarked) (hw : state.1.Writable readOnly) :
    ∃ slot s', takeSlot.run state = .ok slot s' := by
  obtain ⟨pool, disk⟩ := state
  unfold EStateM.run takeSlot
  dsimp only
  split
  · exact ⟨_, _, rfl⟩
  · next slot rest _ =>
    obtain ⟨s', hwritten⟩ := writeBack_ok hD h hw slot
    unfold EStateM.run at hwritten
    rw [hwritten]
    exact ⟨_, _, rfl⟩

theorem bringIn_ok (hD : ArrayDisk size readOnly Holds)
    (h : Shows size readOnly Holds state shown unmarked) (hw : state.1.Writable readOnly)
    (hb : block < size) : ∃ handle s', (bringIn block).run state = .ok handle s' := by
  obtain ⟨pool, disk⟩ := state
  obtain ⟨base, hbase, hc⟩ := h.caches
  obtain ⟨disk', hread⟩ := hD.read_ok hbase hb
  have hbase' := ((hD.read_ends hbase block).of_ok hread).1
  have hs : Shows size readOnly Holds (pool, disk') shown unmarked :=
    ⟨h.valid, ⟨base, hbase', hc⟩, h.unmarked_of_readOnly⟩
  obtain ⟨slot, s', htake⟩ := takeSlot_ok hD hs hw
  have hcheck : checkBlock block (Disk.blocks disk) = .ok () := by
    rw [hD.blocks_eq hbase]
    exact checkBlock_eq_ok_iff.mpr hb
  have hends : Ends (bringIn block) (pool, disk) fun r _ => ∃ handle, r = .ok handle ∧ True := by
    unfold bringIn
    simp only [ends_bind, ends_ask, hcheck, ends_onSecond, modifyPool, ends_modify, ends_pure]
    rw [ends_of_run_eq_ok hread, ends_of_run_eq_ok htake]
    exact ⟨_, rfl, trivial⟩
  obtain ⟨handle, s', hrun, -⟩ := exists_ok_of_ends hends
  exact ⟨handle, s', hrun⟩

/-- Every block of the disk can be checked out. -/
theorem acquire_ok (hD : ArrayDisk size readOnly Holds)
    (h : Shows size readOnly Holds state shown unmarked) (hw : state.1.Writable readOnly)
    (hb : block < size) : ∃ handle s', (acquire block).run state = .ok handle s' := by
  obtain ⟨pool, disk⟩ := state
  cases hfind : pool.find? block with
  | some slot => exact ⟨_, _, run_acquire_of_resident disk hfind⟩
  | none =>
    rw [run_acquire_of_absent disk hfind]
    exact bringIn_ok hD h hw hb

/-- No other block can be checked out, and trying to do so changes nothing. -/
theorem run_acquire_of_blocks_le {pool : Pool} {disk : δ} (h : pool.Valid size)
    (hsize : Disk.blocks disk = size) (hb : size ≤ block) :
    (acquire block).run (pool, disk) = .error (.blockOutOfRange block size) (pool, disk) := by
  have hfind : pool.find? block = none := h.find?_eq_none_iff.mpr fun slot hslot =>
    absurd (h.lt_size hslot) (Nat.not_lt.mpr hb)
  have hcheck : checkBlock block (Disk.blocks disk) = .error (.blockOutOfRange block size) := by
    rw [hsize]
    exact if_neg (Nat.not_lt.mpr hb)
  rw [run_acquire_of_absent disk hfind, bringIn, EStateM.run_bind, run_ask]
  simp only [hcheck]

theorem run_acquire_of_le (hD : ArrayDisk size readOnly Holds)
    (h : Shows size readOnly Holds state shown unmarked) (hb : size ≤ block) :
    (acquire block).run state = .error (.blockOutOfRange block size) state := by
  obtain ⟨base, hbase, -⟩ := h.caches
  exact run_acquire_of_blocks_le h.valid (hD.blocks_eq hbase) hb

theorem lt_of_acquire (hD : ArrayDisk size readOnly Holds)
    (h : Shows size readOnly Holds state shown unmarked) {handle : Handle}
    (hr : (acquire block).run state = .ok handle state') : block < size := by
  by_contra hb
  rw [run_acquire_of_le hD h (Nat.not_lt.mp hb)] at hr
  cases hr

/-! ## Whole blocks -/

theorem readBlock_ok (hD : ArrayDisk size readOnly Holds)
    (h : Shows size readOnly Holds state shown ∅) (hw : state.1.Writable readOnly)
    (hb : block < size) : ∃ s', (BlockCache.readBlock block).run state = .ok (shown block) s' := by
  obtain ⟨handle, s', hacquire⟩ := acquire_ok hD h hw hb
  obtain ⟨hs', hok⟩ := (acquire_ends hD.toFaithfulDisk h block).of_ok hacquire
  obtain ⟨rfl, pins, hc, -⟩ := hok handle rfl
  obtain ⟨entry, hentry, -⟩ := checkedOut_iff.mp hc
  have hdata : data handle s' = .ok entry.data := by
    obtain ⟨pool, disk⟩ := s'
    have hentry : pool.checkedOut handle = .ok entry := hentry
    simp only [data, hentry, Except.map]
  have hends : Ends (BlockCache.readBlock handle.block) state fun r _ =>
      r = .ok (shown handle.block) := by
    unfold BlockCache.readBlock
    rw [ends_bind]
    refine (ends_of_run_eq_ok hacquire).mpr ?_
    simp only [ends_bind, ends_attempt, ends_ask, ends_ofExcept]
    refine (release_ends hD.toFaithfulDisk hs' handle false false fun _ _ =>
      Set.notMem_empty _).mono ?_
    rintro r s'' (⟨hstale, -⟩ | ⟨-, -, -, hreleased⟩)
    · exact absurd hc (hstale pins)
    · obtain rfl := hreleased rfl fun hd => by cases hd
      have hcopied : BlockCache.data handle s' = .ok (shown handle.block) :=
        hdata.trans (congrArg _ (hs'.data_eq hdata))
      rw [hcopied]
      rfl
  exact ⟨_, run_eq_ok_of_outcome (ends_iff.mp hends)⟩

theorem lt_of_readBlock (hD : ArrayDisk size readOnly Holds)
    (h : Shows size readOnly Holds state shown ∅) {bytes : Block}
    (hr : (BlockCache.readBlock block).run state = .ok bytes state') : block < size := by
  cases hacquire : (BlockCache.acquire block).run state with
  | ok handle s' => exact lt_of_acquire hD h hacquire
  | error e s' =>
    rw [BlockCache.run_readBlock_of_acquire_error hacquire] at hr
    cases hr

theorem lt_of_writeBlock (hD : ArrayDisk size readOnly Holds)
    (h : Shows size readOnly Holds state shown ∅) {bytes : Block}
    (hw : (BlockCache.writeBlock block bytes).run state = .ok () state') : block < size := by
  cases hacquire : (BlockCache.acquire block).run state with
  | ok handle s' => exact lt_of_acquire hD h hacquire
  | error e s' =>
    rw [BlockCache.run_writeBlock_of_acquire_error hacquire] at hw
    cases hw

/-- What comes of reading a block. -/
theorem readBlock_outcome (hD : ArrayDisk size readOnly Holds)
    (h : Shows size readOnly Holds state shown ∅) (hw : state.1.Writable readOnly) (block : Nat) :
    (BlockCache.readBlock block).outcome state =
      if block < size then .ok (shown block) else .error (.blockOutOfRange block size) := by
  split
  · next hb =>
    obtain ⟨s', hrun⟩ := readBlock_ok hD h hw hb
    exact outcome_of_run_eq_ok hrun
  · next hb =>
    have hrun := BlockCache.run_readBlock_of_acquire_error
      (run_acquire_of_le hD h (Nat.not_lt.mp hb))
    simp only [outcome, hrun]

/-- Only write protection keeps a checked-out block from being changed. -/
theorem update_ends_of_checkedOut (hD : ArrayDisk size readOnly Holds)
    (h : Shows size readOnly Holds state shown unmarked) {handle : Handle} {pins : Nat}
    (hc : state.1.CheckedOut handle pins) (change : Block → Block) :
    Ends (update handle change) state fun r _ =>
      r = if readOnly then .error .readOnly else .ok () := by
  obtain ⟨pool, disk⟩ := state
  obtain ⟨base, hbase, -⟩ := h.caches
  obtain ⟨entry, he, -⟩ := checkedOut_iff.mp hc
  unfold update
  simp only [ends_bind, ends_ask, he, hD.readOnly_eq hbase, modifyPool, ends_modify]
  cases readOnly <;> rfl

/-- What comes of replacing a block. -/
theorem writeBlock_outcome (hD : ArrayDisk size readOnly Holds)
    (h : Shows size readOnly Holds state shown ∅) (hw : state.1.Writable readOnly) (block : Nat)
    (bytes : Block) :
    (BlockCache.writeBlock block bytes).outcome state =
      if block < size then if readOnly then .error .readOnly else .ok ()
      else .error (.blockOutOfRange block size) := by
  split
  · next hb =>
    obtain ⟨handle, s', hacquire⟩ := acquire_ok hD h hw hb
    obtain ⟨hs', hok⟩ := (acquire_ends hD.toFaithfulDisk h block).of_ok hacquire
    obtain ⟨rfl, pins, hc, -⟩ := hok handle rfl
    suffices hends : Ends (BlockCache.writeBlock handle.block bytes) state fun r _ =>
        r = if readOnly then .error .readOnly else .ok () from ends_iff.mp hends
    unfold BlockCache.writeBlock
    rw [ends_bind]
    refine (ends_of_run_eq_ok hacquire).mpr ?_
    simp only [ends_bind, ends_attempt, ends_ofExcept]
    refine ((update_ends hD.toFaithfulDisk hs' handle fun _ => bytes).and
      (update_ends_of_checkedOut hD hs' hc fun _ => bytes)).mono ?_
    rintro r changed ⟨hchanged, hr⟩
    -- The update is what a read-only disk refuses; the block is given back all the same.
    cases readOnly with
    | true =>
      obtain rfl : r = .error .readOnly := hr
      obtain rfl : changed = s' := hchanged
      exact (release_ends hD.toFaithfulDisk hs' handle false false fun _ _ =>
        Set.notMem_empty _).mono fun _ _ _ => rfl
    | false =>
      obtain rfl : r = .ok () := hr
      obtain ⟨-, hsame, hchanged⟩ := hchanged
      refine (release_ends hD.toFaithfulDisk hchanged handle true false fun hd => by cases hd).mono ?_
      rintro r after (⟨hstale, -⟩ | ⟨-, -, -, hreleased⟩)
      · exact absurd (hsame.checkedOut hc) (hstale pins)
      · exact hreleased rfl fun _ => rfl
  · next hb =>
    have hrun : (BlockCache.writeBlock block bytes).run state = _ :=
      BlockCache.run_writeBlock_of_acquire_error (run_acquire_of_le hD h (Nat.not_lt.mp hb))
    simp only [outcome, hrun]

/-- A pool behaves as an array of blocks. -/
theorem arrayStore (hD : ArrayDisk size false Holds) :
    ArrayStore size fun state shown => Shows size false Holds state shown ∅ where
  read_ends h block := readBlock_ends hD.toFaithfulDisk h block
  write_ends h block data := by
    refine (writeBlock_ends hD.toFaithfulDisk h block data).mono ?_
    rintro (e | ⟨⟩) s' hs'
    · exact hs'
    · rwa [Set.empty_sdiff] at hs'
  read_ok h hb := readBlock_ok hD h nofun hb
  lt_of_read h hr := lt_of_readBlock hD h hr
  lt_of_write h hw := lt_of_writeBlock hD h hw

end Diskette.Pool
