import Diskette.Proofs.Pool.Store

/-!
# What a pool does to the disk behind it

A block reaches the disk when its entry is written back, which may be long after it was replaced. So
whether anything was changed is known from the disk and the entries together: the disk was written,
or an entry is still to be written back. Looking at blocks leaves that as it is, whatever has to be
recycled for it, and what else is known of the disk stays.

* `Watched`: a disk of which it is known whether it was written.
* `Touched`: whether anything was changed.
* `readBlock_follows`, `writeBlock_follows`, `run_writeBackAll`: what becomes of that.
-/

namespace Diskette.Pool

open Diskette.Action

variable {δ : Type} [Disk δ] {size : Nat} {readOnly : Bool} {Holds : δ → (Nat → Block) → Prop}
  {Inv modified : δ → Prop} {state : Pool × δ} {shown : Nat → Block} {touched : Prop}
  {pool pool' : Pool} {disk : δ} {slot block : Nat}

/-- Accesses keep an invariant of the disk, and a write that succeeds, nothing else, makes it a
modified one. -/
structure Watched (Inv modified : δ → Prop) : Prop where
  read_ends {disk : δ} (h : Inv disk) (block : Nat) :
    Ends (Disk.read block) disk fun _ disk' => Inv disk' ∧ (modified disk' ↔ modified disk)
  write_ends {disk : δ} (h : Inv disk) (block : Nat) (data : Block) :
    Ends (Disk.write block data) disk fun r disk' =>
      Inv disk' ∧ (modified disk' ↔ r = .ok () ∨ modified disk)

/-- The disk was modified, or an entry is still to be written back. -/
def Touched (modified : δ → Prop) (state : Pool × δ) : Prop :=
  modified state.2 ∨ ∃ slot, ¬ state.1.CleanAt slot

/-- The invariant of the disk holds, and it is known whether anything was changed. -/
structure Follows (Inv modified : δ → Prop) (touched : Prop) (state : Pool × δ) : Prop where
  inv : Inv state.2
  touched_iff : Touched modified state ↔ touched

/-! ## Changes of a slot -/

omit [Disk δ] in
theorem Follows.congr (h : Follows Inv modified touched (pool, disk))
    (hclean : ∀ i, pool'.CleanAt i ↔ pool.CleanAt i) :
    Follows Inv modified touched (pool', disk) := by
  refine ⟨h.inv, Iff.trans ?_ h.touched_iff⟩
  simp only [Touched, hclean]

/-- What has become of the entries needs not be written back if it did not before. -/
theorem cleanAt_iff {change : Entry → Entry} (hc : EntryChanged slot change pool pool')
    (hd : ∀ entry, pool.entries[slot]? = some entry → (change entry).dirty = entry.dirty) (i : Nat) :
    pool'.CleanAt i ↔ pool.CleanAt i := by
  constructor
  · intro h entry he
    have := h _ (hc.getElem? he)
    split at this
    · next hi => rwa [hd entry (hi ▸ he)] at this
    · exact this
  · intro h entry he
    obtain ⟨old, hold, rfl⟩ := hc.cases he
    split
    · next hi =>
      rw [hd old (hi ▸ hold)]
      exact h old hold
    · exact h old hold

theorem cleanAt_grow (i : Nat) : pool.grow.CleanAt i ↔ pool.CleanAt i := by
  unfold CleanAt
  rw [getElem?_entries_grow]
  split
  · next hi => simp [hi, Entry.unbound]
  · rfl

theorem Reserved.cleanAt (h : pool.Reserved size slot) : pool.CleanAt slot := by
  intro entry he
  rw [← Bool.not_eq_true]
  intro hd
  have hb := h.bound he (.inl hd)
  rw [← blockAt_of_entry he, h.blockAt_eq_none] at hb
  cases hb

/-! ## A slot for a block -/

theorem writeBack_follows (hW : Watched Inv modified) (hv : state.1.Valid size)
    (hf : Follows Inv modified touched state) (slot : Nat) :
    Ends (writeBack slot) state fun _ s' => Follows Inv modified touched s' := by
  obtain ⟨pool, disk⟩ := state
  rcases hv.dirty_or_cleanAt slot with ⟨block, data, pins, he⟩ | hclean
  · have hdirty : ¬ pool.CleanAt slot := fun hc => nomatch hc _ he
    have htouched : touched := hf.touched_iff.mp (.inr ⟨slot, hdirty⟩)
    have hw := hW.write_ends hf.inv block data
    unfold Ends EStateM.run writeBack at *
    simp only [he]
    cases hr : Disk.write block data disk with
    | ok a disk' =>
      rw [hr] at hw
      exact ⟨hw.1, iff_of_true (.inl (hw.2.mpr (.inl rfl))) htouched⟩
    | error e disk' =>
      rw [hr] at hw
      exact ⟨hw.1, iff_of_true (.inr ⟨slot, hdirty⟩) htouched⟩
  · exact (ends_of_run_eq_ok (run_writeBack_of_cleanAt hclean disk)).mpr hf

theorem takeSlot_follows (hW : Watched Inv modified) (hv : state.1.Valid size)
    (hf : Follows Inv modified touched state) :
    Ends takeSlot state fun _ s' => Follows Inv modified touched s' := by
  obtain ⟨pool, disk⟩ := state
  cases hidle : pool.idle with
  | nil =>
    exact (ends_of_run_eq_ok (run_takeSlot_of_idle_nil disk hidle)).mpr (hf.congr cleanAt_grow)
  | cons slot rest =>
    refine (ends_congr (run_takeSlot_of_idle hidle disk)).mpr ?_
    refine (writeBack_follows hW hv hf slot).bind ?_ fun _ _ hs => hs
    rintro ⟨⟩ ⟨pool', disk'⟩ hs
    exact hs.congr (cleanAt_iff (fun i => getElem?_entries_unbind i) fun _ _ => rfl)

theorem bringIn_follows (hD : FaithfulDisk size readOnly Holds) (hW : Watched Inv modified)
    (h : Shows size readOnly Holds state shown ∅) (hf : Follows Inv modified touched state)
    (block : Nat) : Ends (bringIn block) state fun _ s' => Follows Inv modified touched s' := by
  obtain ⟨pool, disk⟩ := state
  obtain ⟨base, hbase, hc⟩ := h.caches
  unfold bringIn
  simp only [ends_bind, ends_ask, ends_onSecond, modifyPool, ends_modify, ends_pure]
  cases checkBlock block (Disk.blocks disk) with
  | error e => exact hf
  | ok _ =>
    refine ((hD.read_ends hbase block).and (hW.read_ends hf.inv block)).mono ?_
    rintro r disk' ⟨⟨hbase', -⟩, hinv, hmodified⟩
    have hs : Shows size readOnly Holds (pool, disk') shown ∅ :=
      ⟨h.valid, ⟨base, hbase', hc⟩, h.unmarked_of_readOnly⟩
    have hf' : Follows Inv modified touched (pool, disk') := by
      refine ⟨hinv, Iff.trans ?_ hf.touched_iff⟩
      simp only [Touched, hmodified]
    cases r with
    | error e => exact hf'
    | ok data =>
      refine ((takeSlot_ends hD hs).and (takeSlot_follows hW hs.valid hf')).mono ?_
      rintro (e | slot) ⟨pool', disk''⟩ ⟨hslot, hf''⟩
      · exact hf''
      · refine hf''.congr (cleanAt_iff (fun i => getElem?_entries_bindTo data i) ?_)
        exact fun entry he => (hslot.1.cleanAt entry he).symm

theorem acquire_follows (hD : FaithfulDisk size readOnly Holds) (hW : Watched Inv modified)
    (h : Shows size readOnly Holds state shown ∅) (hf : Follows Inv modified touched state)
    (block : Nat) : Ends (acquire block) state fun _ s' => Follows Inv modified touched s' := by
  obtain ⟨pool, disk⟩ := state
  cases hfind : pool.find? block with
  | some slot =>
    rw [ends_of_run_eq_ok (run_acquire_of_resident disk hfind)]
    exact hf.congr (cleanAt_iff (fun i => getElem?_entries_pin i) fun _ _ => rfl)
  | none =>
    exact (ends_congr (run_acquire_of_absent disk hfind)).mpr (bringIn_follows hD hW h hf block)

/-! ## Checked-out blocks -/

theorem update_follows (hf : Follows Inv modified touched state) (handle : Handle)
    (change : Block → Block) :
    Ends (update handle change) state fun _ s' => Follows Inv modified touched s' := by
  obtain ⟨pool, disk⟩ := state
  unfold update
  simp only [ends_bind, ends_ask, modifyPool, ends_modify]
  cases pool.checkedOut handle with
  | error e => exact hf
  | ok entry =>
    cases Disk.readOnly disk with
    | true => exact hf
    | false => exact hf.congr (cleanAt_iff (getElem?_entries_changeEntry _) fun _ _ => rfl)

/-- An entry that is marked as changed is to be written back. -/
theorem flag_follows (hf : Follows Inv modified touched state)
    (hb : state.1.blockAt slot = some block) :
    Ends (flag slot) state fun r s' => Follows Inv modified (touched ∨ r = .ok ()) s' := by
  obtain ⟨pool, disk⟩ := state
  obtain ⟨entry, he, -⟩ := blockAt_eq_some_iff.mp hb
  unfold flag
  simp only [ends_bind, ends_ask, modifyPool, ends_modify]
  cases Disk.readOnly disk with
  | true => exact ⟨hf.inv, by simpa using hf.touched_iff⟩
  | false =>
    refine ⟨hf.inv, iff_of_true (.inr ⟨slot, fun hclean => ?_⟩) (.inr trivial)⟩
    have hnew : (pool.changeEntry slot fun entry => { entry with dirty := true }).entries[slot]? =
        some { entry with dirty := true } := by
      rw [getElem?_entries_changeEntry, if_pos rfl, he]
      rfl
    cases hclean _ hnew

/-- A block that is given back as changed, without being committed. -/
theorem release_follows (hf : Follows Inv modified touched state) (handle : Handle) (dirty : Bool) :
    Ends (release handle dirty false) state fun r s' =>
      Follows Inv modified (touched ∨ dirty = true ∧ r = .ok ()) s' := by
  obtain ⟨pool, disk⟩ := state
  have hunpin {pool : Pool} {disk : δ} {touched : Prop}
      (hf : Follows Inv modified touched (pool, disk)) :
      Follows Inv modified touched (pool.unpin handle.slot, disk) :=
    hf.congr (cleanAt_iff (fun i => getElem?_entries_unpin i) fun _ _ => rfl)
  unfold release
  simp only [ends_bind, ends_ask]
  cases he : pool.checkedOut handle with
  | error e => exact ⟨hf.inv, by simpa [Except.map] using hf.touched_iff⟩
  | ok entry =>
    simp only [Except.map, ends_attempt, modifyPool, ends_modify, ends_ofExcept]
    cases dirty with
    | false => exact hunpin ⟨hf.inv, by simpa using hf.touched_iff⟩
    | true =>
      have hb : pool.blockAt handle.slot = some handle.block :=
        (blockAt_of_entry (checkedOut_eq_ok_iff.mp he).1).trans (checkedOut_eq_ok_iff.mp he).2.1
      unfold settle
      simp only [if_true, ends_bind]
      refine (flag_follows hf hb).mono ?_
      rintro (e | ⟨⟩) ⟨pool', disk'⟩ hs
      · exact hunpin ⟨hs.inv, by simpa using hs.touched_iff⟩
      · exact hunpin ⟨hs.inv, by simpa using hs.touched_iff⟩

/-! ## Whole blocks -/

theorem readBlock_follows (hD : FaithfulDisk size readOnly Holds) (hW : Watched Inv modified)
    (h : Shows size readOnly Holds state shown ∅) (hf : Follows Inv modified touched state)
    (block : Nat) :
    Ends (BlockCache.readBlock block) state fun _ s' => Follows Inv modified touched s' := by
  unfold BlockCache.readBlock
  refine (acquire_follows hD hW h hf block).bind ?_ fun _ _ hs => hs
  intro handle s' hs
  simp only [ends_bind, ends_attempt, ends_ask, ends_ofExcept]
  exact (release_follows hs handle false).mono fun r s'' hs' => by simpa using hs'

theorem writeBlock_follows (hD : FaithfulDisk size readOnly Holds) (hW : Watched Inv modified)
    (h : Shows size readOnly Holds state shown ∅) (hf : Follows Inv modified touched state)
    (block : Nat) (bytes : Block) :
    Ends (BlockCache.writeBlock block bytes) state fun r s' =>
      Follows Inv modified (touched ∨ r = .ok ()) s' := by
  unfold BlockCache.writeBlock
  refine (acquire_follows hD hW h hf block).bind ?_ fun e s' hs => by simpa using hs
  intro handle s' hs
  simp only [ends_bind, ends_attempt, ends_ofExcept]
  refine (update_follows hs handle fun _ => bytes).mono ?_
  rintro (e | ⟨⟩) s'' hs'
  · exact (release_follows hs' handle false).mono fun r after ha => by
      simpa [Except.bind] using ha
  · exact (release_follows hs' handle true).mono fun r after ha => by
      simpa [Except.bind, Except.isOk, Except.toBool] using ha

/-! ## Everything is written back -/

theorem writeBackFrom_follows (hD : FaithfulDisk size readOnly Holds) (hW : Watched Inv modified)
    (count : Nat) :
    ∀ {state : Pool × δ} {slot : Nat}, Shows size readOnly Holds state shown ∅ →
      Follows Inv modified touched state →
      Ends (writeBackFrom count slot) state fun _ s' => Follows Inv modified touched s' := by
  induction count with
  | zero => exact fun _ hf => hf
  | succ count ih =>
    intro state slot h hf
    exact ((writeBack_ends hD h slot).and (writeBack_follows hW h.valid hf slot)).bind
      (fun _ s' hs => ih hs.1.1 hs.2) fun _ _ hs => hs.2

/-- Afterwards nothing is left to be written back. -/
theorem run_writeBackAll (hD : ArrayDisk size readOnly Holds) (hW : Watched Inv modified)
    (h : Shows size readOnly Holds state shown ∅) (hw : state.1.Writable readOnly)
    (hf : Follows Inv modified touched state) :
    ∃ s', writeBackAll.run state = .ok () s' ∧ Shows size readOnly Holds s' shown ∅ ∧
      Follows Inv modified touched s' ∧ ∀ slot, s'.1.CleanAt slot := by
  obtain ⟨s', hrun⟩ : ∃ s', writeBackAll.run state = .ok () s' := writeBackFrom_ok hD _ h hw
  obtain ⟨hs', hclean⟩ := (writeBackAll_ends hD.toFaithfulDisk h).of_ok hrun
  have hf' : Follows Inv modified touched s' :=
    (writeBackFrom_follows hD.toFaithfulDisk hW _ h hf).of_ok hrun
  exact ⟨s', hrun, hs', hf', hclean rfl⟩

end Diskette.Pool
