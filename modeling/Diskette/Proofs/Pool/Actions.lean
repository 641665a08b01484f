import Diskette.Proofs.Pool.Contents
import Mathlib.Order.BooleanAlgebra.Set

/-!
# What the actions of a pool keep

A pool and the disk behind it show one array of blocks. Every action of the pool keeps it, apart
from the one change that it is asked for, and keeps the pool well formed. The accesses to the disk
may fail: what fails shows the array that it found.

* `acquire_ends`: a block is checked out, whatever buffer is recycled for it.
* `update_ends`, `release_ends`, `markDirty_ends`: a change, and the two ways of recording it.
* `readBlock_ends`, `writeBlock_ends`: whole blocks.
* `sync_ends`: afterwards the disk holds the array that the pool shows.
-/

namespace Diskette.Pool

open Diskette.Action

variable {δ : Type} [Disk δ] {size : Nat} {readOnly : Bool} {Holds : δ → (Nat → Block) → Prop}
  {state state' : Pool × δ} {shown : Nat → Block} {unmarked : Set Nat} {slot block : Nat}

/-- The pool and the disk behind it show the array `shown`; the changes of the blocks in `unmarked`
are not recorded yet. -/
structure Shows (size : Nat) (readOnly : Bool) (Holds : δ → (Nat → Block) → Prop)
    (state : Pool × δ) (shown : Nat → Block) (unmarked : Set Nat) : Prop where
  valid : state.1.Valid size
  caches : ∃ base, Holds state.2 base ∧ state.1.Caches base shown unmarked
  unmarked_of_readOnly (h : readOnly = true) : unmarked = ∅

omit [Disk δ] in
/-- A new pool shows what is on the disk. -/
theorem shows_ofSize {disk : δ} {base : Nat → Block} (h : Holds disk base) (count : Nat) :
    Shows size readOnly Holds (ofSize count, disk) base ∅ :=
  ⟨valid_ofSize count size, ⟨base, h, caches_ofSize count base⟩, fun _ => rfl⟩

/-! ## Writing entries back -/

/-- The entry of a slot needs not be written back. -/
def CleanAt (pool : Pool) (slot : Nat) : Prop :=
  ∀ entry, pool.entries[slot]? = some entry → entry.dirty = false

/-- The slots of both pools are bound to the same blocks and have the same pins. -/
structure SamePins (pool pool' : Pool) : Prop where
  blockAt_eq (i : Nat) : pool'.blockAt i = pool.blockAt i
  pinsAt_eq (i : Nat) : pool'.pinsAt i = pool.pinsAt i

theorem SamePins.refl (pool : Pool) : SamePins pool pool := ⟨fun _ => rfl, fun _ => rfl⟩

theorem SamePins.trans {first second third : Pool} (h : SamePins first second)
    (h' : SamePins second third) : SamePins first third :=
  ⟨fun i => (h'.blockAt_eq i).trans (h.blockAt_eq i),
    fun i => (h'.pinsAt_eq i).trans (h.pinsAt_eq i)⟩

/-- `pool'` is `pool` with entries written back. -/
structure WrittenBack (pool pool' : Pool) : Prop extends SamePins pool pool' where
  size_eq : pool'.entries.size = pool.entries.size
  idle_eq : pool'.idle = pool.idle
  cleanAt {i : Nat} (h : pool.CleanAt i) : pool'.CleanAt i

theorem WrittenBack.refl (pool : Pool) : WrittenBack pool pool := ⟨.refl pool, rfl, rfl, id⟩

theorem WrittenBack.trans {first second third : Pool} (h : WrittenBack first second)
    (h' : WrittenBack second third) : WrittenBack first third :=
  ⟨h.toSamePins.trans h'.toSamePins, h'.size_eq.trans h.size_eq, h'.idle_eq.trans h.idle_eq,
    fun hc => h'.cleanAt (h.cleanAt hc)⟩

theorem writtenBack_changeEntry (pool : Pool) (slot : Nat) :
    WrittenBack pool (pool.changeEntry slot fun entry => { entry with dirty := false }) where
  size_eq := Array.size_modify
  idle_eq := rfl
  blockAt_eq := blockAt_changeEntry (fun entry => { entry with dirty := false })
    fun _ => rfl
  pinsAt_eq := pinsAt_changeEntry (fun entry => { entry with dirty := false })
    fun _ => rfl
  cleanAt h entry he := by
    rw [getElem?_entries_changeEntry] at he
    split at he
    · obtain ⟨old, _, rfl⟩ := Option.map_eq_some_iff.mp he
      rfl
    · exact h entry he

theorem cleanAt_changeEntry (pool : Pool) (slot : Nat) :
    (pool.changeEntry slot fun entry => { entry with dirty := false }).CleanAt slot := by
  intro entry he
  rw [getElem?_entries_changeEntry, if_pos rfl] at he
  obtain ⟨old, _, rfl⟩ := Option.map_eq_some_iff.mp he
  rfl

/-- A changed entry is bound to a block, so a buffer has something to be written back or is
clean. -/
theorem Valid.dirty_or_cleanAt {pool : Pool} (h : pool.Valid size) (slot : Nat) :
    (∃ (block : Nat) (data : Block) (pins : Nat),
      pool.entries[slot]? = some ⟨some block, data, true, pins⟩) ∨ pool.CleanAt slot := by
  cases he : pool.entries[slot]? with
  | none => exact .inr fun entry he' => by simp [he] at he'
  | some entry =>
    obtain ⟨block, data, dirty, pins⟩ := entry
    cases dirty with
    | false =>
      refine .inr fun entry he' => ?_
      rw [he] at he'
      cases he'
      rfl
    | true =>
      obtain ⟨block, rfl⟩ := Option.isSome_iff_exists.mp (h.bound he (.inl rfl))
      exact .inl ⟨block, data, pins, rfl⟩

theorem run_writeBack_of_cleanAt {pool : Pool} (h : pool.CleanAt slot) (disk : δ) :
    (writeBack slot).run (pool, disk) = .ok () (pool, disk) := by
  unfold EStateM.run writeBack
  dsimp only
  split
  · next he => exact nomatch h _ he
  · rfl

theorem writeBack_ends (hD : FaithfulDisk size readOnly Holds)
    (h : Shows size readOnly Holds state shown unmarked) (slot : Nat) :
    Ends (writeBack slot) state fun r s' => Shows size readOnly Holds s' shown unmarked ∧
      WrittenBack state.1 s'.1 ∧ (r = .ok () → s'.1.CleanAt slot) := by
  obtain ⟨pool, disk⟩ := state
  obtain ⟨base, hbase, hc⟩ := h.caches
  rcases h.valid.dirty_or_cleanAt slot with ⟨block, data, pins, he⟩ | hclean
  · have hw := hD.write_ends hbase block data
    unfold Ends EStateM.run writeBack at *
    simp only [he]
    cases hr : Disk.write block data disk with
    | ok a disk' =>
      cases a
      rw [hr] at hw
      refine ⟨⟨h.valid.changeEntry (fun _ => rfl) (fun _ => rfl) (fun _ _ hd => nomatch hd),
        ⟨_, hw, hc.writeOut he rfl⟩, h.unmarked_of_readOnly⟩, writtenBack_changeEntry pool slot,
        fun _ => cleanAt_changeEntry pool slot⟩
    | error e disk' =>
      rw [hr] at hw
      exact ⟨⟨h.valid, ⟨base, hw, hc⟩, h.unmarked_of_readOnly⟩, .refl _, fun hok => nomatch hok⟩
  · rw [ends_of_run_eq_ok (run_writeBack_of_cleanAt hclean disk)]
    exact ⟨h, .refl _, fun _ => hclean⟩

theorem writeBackFrom_ends (hD : FaithfulDisk size readOnly Holds) (count : Nat) :
    ∀ {state : Pool × δ} {slot : Nat}, Shows size readOnly Holds state shown unmarked →
      Ends (writeBackFrom count slot) state fun r s' =>
        Shows size readOnly Holds s' shown unmarked ∧ WrittenBack state.1 s'.1 ∧
        (r = .ok () → ∀ i, slot ≤ i → i < slot + count → s'.1.CleanAt i) := by
  induction count with
  | zero =>
    intro state slot h
    exact ⟨h, .refl _, fun _ i hle hlt => by omega⟩
  | succ count ih =>
    intro state slot h
    refine (writeBack_ends hD h slot).bind ?_ ?_
    · rintro ⟨⟩ s' ⟨hs, hw, hclean⟩
      refine (ih hs).mono ?_
      rintro r s'' ⟨hs', hw', hclean'⟩
      refine ⟨hs', hw.trans hw', fun hr i hle hlt => ?_⟩
      by_cases hi : i = slot
      · exact hw'.cleanAt (hi ▸ hclean rfl)
      · exact hclean' hr i (by omega) (by omega)
    · rintro e s' ⟨hs, hw, -⟩
      exact ⟨hs, hw, fun hr => by cases hr⟩

/-! ## Checking out -/

/-- Some entry stands for the handle, with so many pins. -/
def CheckedOut (pool : Pool) (handle : Handle) (pins : Nat) : Prop :=
  0 < pins ∧ pool.blockAt handle.slot = some handle.block ∧ pool.pinsAt handle.slot = some pins

theorem checkedOut_eq_ok_iff {pool : Pool} {handle : Handle} {entry : Entry} :
    pool.checkedOut handle = .ok entry ↔ pool.entries[handle.slot]? = some entry ∧
      entry.block = some handle.block ∧ 0 < entry.pins := by
  unfold checkedOut checkedOut?
  cases he : pool.entries[handle.slot]? with
  | none => simp
  | some found =>
    by_cases hf : found.block = some handle.block ∧ 0 < found.pins
    · simp only [Option.filter_some, hf, and_self, decide_true, if_true, Except.ok.injEq,
        Option.some.injEq]
      constructor
      · rintro rfl
        exact ⟨rfl, hf⟩
      · rintro ⟨rfl, -⟩
        rfl
    · simp only [Option.filter_some, hf, decide_false, Bool.false_eq_true, if_false, reduceCtorEq,
        Option.some.injEq, false_iff]
      rintro ⟨rfl, hf'⟩
      exact hf hf'

theorem eq_stale_of_checkedOut {pool : Pool} {handle : Handle} {e : DiskError}
    (h : pool.checkedOut handle = .error e) : e = .staleHandle handle.block := by
  unfold checkedOut at h
  split at h
  · cases h
  · exact (Except.error.inj h).symm

theorem checkedOut_iff {pool : Pool} {handle : Handle} {pins : Nat} :
    pool.CheckedOut handle pins ↔
      ∃ entry, pool.checkedOut handle = .ok entry ∧ entry.pins = pins := by
  simp only [checkedOut_eq_ok_iff]
  constructor
  · rintro ⟨hpos, hb, hp⟩
    obtain ⟨entry, he, hblock⟩ := blockAt_eq_some_iff.mp hb
    rw [pinsAt_of_entry he, Option.some.injEq] at hp
    exact ⟨entry, ⟨he, hblock, hp ▸ hpos⟩, hp⟩
  · rintro ⟨entry, ⟨he, hblock, hpos⟩, rfl⟩
    exact ⟨hpos, (blockAt_of_entry he).trans hblock, pinsAt_of_entry he⟩

theorem SamePins.checkedOut {pool pool' : Pool} (h : SamePins pool pool') {handle : Handle}
    {pins : Nat} (hc : pool.CheckedOut handle pins) : pool'.CheckedOut handle pins :=
  ⟨hc.1, (h.blockAt_eq _).trans hc.2.1, (h.pinsAt_eq _).trans hc.2.2⟩

theorem CheckedOut.pins_eq {pool : Pool} {handle : Handle} {pins pins' : Nat}
    (h : pool.CheckedOut handle pins) (h' : pool.CheckedOut handle pins') : pins = pins' :=
  Option.some.inj (h.2.2.symm.trans h'.2.2)

omit [Disk δ] in
/-- The pins of a block with a change that is not recorded. -/
theorem Shows.exists_pinned (h : Shows size readOnly Holds state shown unmarked)
    (hu : block ∈ unmarked) : ∃ slot pins, state.1.CheckedOut ⟨block, slot⟩ pins := by
  obtain ⟨base, -, hc⟩ := h.caches
  obtain ⟨slot, entry, he, hb, hp⟩ := hc.pinned hu
  exact ⟨slot, entry.pins, hp, (blockAt_of_entry he).trans hb, pinsAt_of_entry he⟩

/-- An entry that is recycled is written back first. -/
theorem run_takeSlot_of_idle {pool : Pool} {rest : List Nat} (h : pool.idle = slot :: rest)
    (disk : δ) :
    takeSlot.run (pool, disk) =
      (do writeBack slot; modifyPool (unbind slot); return slot : Action (Pool × δ) Nat).run
        (pool, disk) := by
  unfold EStateM.run takeSlot
  simp only [h, bind, EStateM.bind]
  cases writeBack slot (pool, disk) <;> rfl

theorem takeSlot_ends (hD : FaithfulDisk size readOnly Holds)
    (h : Shows size readOnly Holds state shown unmarked) :
    Ends takeSlot state fun r s' =>
      match r with
      | .ok slot => s'.1.Reserved size slot ∧
        (∃ base, Holds s'.2 base ∧ s'.1.Caches base shown unmarked) ∧
        ∀ block, (∀ i, state.1.blockAt i ≠ some block) → ∀ i, s'.1.blockAt i ≠ some block
      | .error _ => Shows size readOnly Holds s' shown unmarked := by
  obtain ⟨pool, disk⟩ := state
  cases hidle : pool.idle with
  | nil =>
    obtain ⟨base, hbase, hc⟩ := h.caches
    rw [ends_of_run_eq_ok (run_takeSlot_of_idle_nil disk hidle)]
    exact ⟨h.valid.grow, ⟨base, hbase, hc.grow⟩, fun block hb i => by rw [blockAt_grow]; exact hb i⟩
  | cons slot rest =>
    refine (ends_congr (run_takeSlot_of_idle hidle disk)).mpr ?_
    refine (writeBack_ends hD h slot).bind ?_ fun e s' hs => hs.1
    rintro ⟨⟩ ⟨pool', disk'⟩ ⟨hs, hw, hclean⟩
    obtain ⟨base, hbase, hc⟩ := hs.caches
    have hmem : slot ∈ pool'.idle := by
      rw [hw.idle_eq, hidle]
      exact List.mem_cons_self
    refine ⟨hs.valid.unbind hmem (hclean rfl), ⟨base, hbase, hc.unbind hs.valid hmem (hclean rfl)⟩,
      fun block hb i => ?_⟩
    rw [blockAt_unbind]
    split
    · exact nofun
    · rw [hw.blockAt_eq]
      exact hb i

theorem bringIn_ends (hD : FaithfulDisk size readOnly Holds)
    (h : Shows size readOnly Holds state shown unmarked)
    (hnew : ∀ i, state.1.blockAt i ≠ some block) :
    Ends (bringIn block) state fun r s' => Shows size readOnly Holds s' shown unmarked ∧
      ∀ handle, r = .ok handle → handle.block = block ∧ s'.1.CheckedOut handle 1 := by
  obtain ⟨pool, disk⟩ := state
  obtain ⟨base, hbase, hc⟩ := h.caches
  unfold bringIn
  simp only [ends_bind, ends_ask, ends_onSecond, modifyPool, ends_modify, ends_pure]
  cases hcheck : checkBlock block (Disk.blocks disk) with
  | error e => exact ⟨h, fun _ hr => by cases hr⟩
  | ok _ =>
    have hlt : block < size := by
      rw [← hD.blocks_eq hbase]
      by_contra hlt
      simp [checkBlock, hlt] at hcheck
    refine (hD.read_ends hbase block).mono ?_
    rintro (e | data) disk' ⟨hbase', hdata⟩
    · exact ⟨⟨h.valid, ⟨base, hbase', hc⟩, h.unmarked_of_readOnly⟩, fun _ hr => by cases hr⟩
    · obtain rfl := hdata data rfl
      -- A read changes no entry, so the pool shows the same before any slot is looked for.
      have hs : Shows size readOnly Holds (pool, disk') shown unmarked :=
        ⟨h.valid, ⟨base, hbase', hc⟩, h.unmarked_of_readOnly⟩
      have hbase_eq : base block = shown block := hc.absent hnew
      refine (takeSlot_ends hD hs).mono ?_
      rintro (e | slot) s' hs'
      · exact ⟨hs', fun _ hr => by cases hr⟩
      · obtain ⟨hr, ⟨base', hbase', hc'⟩, hkept⟩ := hs'
        have hnew' := hkept block hnew
        -- Writing back another entry has moved the disk on, but not at this block, which no entry
        -- had.
        have heq : base' block = base block := (hc'.absent hnew').trans hbase_eq.symm
        refine ⟨⟨hr.bindTo hlt hnew' _, ⟨base', hbase', heq ▸ hc'.bindTo hr hnew'⟩,
          h.unmarked_of_readOnly⟩, ?_⟩
        rintro handle hok
        cases hok
        refine ⟨rfl, Nat.one_pos, ?_, ?_⟩
        · rw [hr.blockAt_bindTo, if_pos rfl]
        · obtain ⟨e, he⟩ := Option.isSome_iff_exists.mp hr.exists_entry
          unfold pinsAt
          rw [getElem?_entries_bindTo, if_pos rfl, he]
          rfl

omit [Disk δ] in
theorem Shows.pin (h : Shows size readOnly Holds state shown unmarked)
    (hb : state.1.blockAt slot = some block) :
    Shows size readOnly Holds (state.1.pin slot, state.2) shown unmarked := by
  obtain ⟨base, hbase, hc⟩ := h.caches
  exact ⟨h.valid.pin hb, ⟨base, hbase, hc.modify (fun i => getElem?_entries_pin i) (fun _ => rfl)
    (fun _ => rfl) (fun _ hd => hd) fun _ _ _ _ _ _ => Nat.succ_pos _⟩, h.unmarked_of_readOnly⟩

/-- A block that is checked out has one pin more than before, so a change of it that is not
recorded is never left with that pin alone. -/
theorem acquire_ends (hD : FaithfulDisk size readOnly Holds)
    (h : Shows size readOnly Holds state shown unmarked) (block : Nat) :
    Ends (acquire block) state fun r s' => Shows size readOnly Holds s' shown unmarked ∧
      ∀ handle, r = .ok handle → handle.block = block ∧
        ∃ pins, s'.1.CheckedOut handle pins ∧ (block ∈ unmarked → 1 < pins) := by
  obtain ⟨pool, disk⟩ := state
  cases hfind : pool.find? block with
  | some slot =>
    have hb := h.valid.find?_eq_some_iff.mp hfind
    rw [ends_of_run_eq_ok (run_acquire_of_resident disk hfind)]
    refine ⟨h.pin hb, ?_⟩
    rintro handle hok
    cases hok
    obtain ⟨entry, he, hblock⟩ := blockAt_eq_some_iff.mp hb
    refine ⟨rfl, entry.pins + 1, ⟨Nat.succ_pos _, by rw [blockAt_pin]; exact hb, ?_⟩, fun hu => ?_⟩
    · rw [pinsAt_pin, if_pos rfl, pinsAt_of_entry he]
      rfl
    -- A change that is not recorded has a pin of its own, to which this one is added.
    · obtain ⟨i, pins, hpos, hbi, hpi⟩ := h.exists_pinned hu
      obtain rfl := h.valid.blockAt_inj hb hbi
      rw [pinsAt_of_entry he, Option.some.injEq] at hpi
      omega
  | none =>
    have hnew := h.valid.find?_eq_none_iff.mp hfind
    rw [ends_congr (run_acquire_of_absent disk hfind)]
    refine (bringIn_ends hD h hnew).mono ?_
    rintro r s' ⟨hs, hok⟩
    refine ⟨hs, fun handle hr => ⟨(hok handle hr).1, 1, (hok handle hr).2, fun hu => ?_⟩⟩
    obtain ⟨i, pins, -, hbi, -⟩ := h.exists_pinned hu
    exact absurd hbi (hnew i)

/-! ## Handles -/

omit [Disk δ] in
/-- The bytes of a checked-out block are those that the pool shows. -/
theorem Shows.data_eq (h : Shows size readOnly Holds state shown unmarked) {handle : Handle}
    {bytes : Block} (hd : data handle state = .ok bytes) : bytes = shown handle.block := by
  obtain ⟨pool, disk⟩ := state
  obtain ⟨base, -, hc⟩ := h.caches
  unfold data at hd
  cases he : pool.checkedOut handle with
  | error e => simp [he, Except.map] at hd
  | ok entry =>
    simp only [he, Except.map, Except.ok.injEq] at hd
    obtain ⟨hentry, hb, -⟩ := checkedOut_eq_ok_iff.mp he
    exact hd ▸ hc.data_eq hentry hb

theorem update_ends (hD : FaithfulDisk size readOnly Holds)
    (h : Shows size readOnly Holds state shown unmarked) (handle : Handle)
    (change : Block → Block) :
    Ends (update handle change) state fun r s' =>
      match r with
      | .ok _ => readOnly = false ∧ SamePins state.1 s'.1 ∧
        Shows size readOnly Holds s'
          (Function.update shown handle.block (change (shown handle.block)))
          (insert handle.block unmarked)
      | .error _ => s' = state := by
  obtain ⟨pool, disk⟩ := state
  obtain ⟨base, hbase, hc⟩ := h.caches
  unfold update
  simp only [ends_bind, ends_ask, modifyPool, ends_modify]
  cases he : pool.checkedOut handle with
  | error e => trivial
  | ok entry =>
    rw [hD.readOnly_eq hbase]
    cases readOnly with
    | true => trivial
    | false =>
      obtain ⟨hentry, hb, hp⟩ := checkedOut_eq_ok_iff.mp he
      refine ⟨rfl, ⟨blockAt_changeEntry _ fun _ => rfl, pinsAt_changeEntry _ fun _ => rfl⟩,
        h.valid.changeEntry (fun _ => rfl) (fun _ => rfl) fun e he' hd => ?_,
        ⟨base, hbase, hc.changeData h.valid hentry hb hp change⟩, fun hr => by cases hr⟩
      exact h.valid.bound he' (.inl hd)

theorem flag_ends (hD : FaithfulDisk size readOnly Holds)
    (h : Shows size readOnly Holds state shown unmarked) (hb : state.1.blockAt slot = some block) :
    Ends (flag slot) state fun r s' =>
      match r with
      | .ok _ => readOnly = false ∧ SamePins state.1 s'.1 ∧
        Shows size readOnly Holds s' shown (unmarked \ {block})
      | .error _ => readOnly = true ∧ s' = state := by
  obtain ⟨pool, disk⟩ := state
  obtain ⟨base, hbase, hc⟩ := h.caches
  unfold flag
  simp only [ends_bind, ends_ask, modifyPool, ends_modify]
  rw [hD.readOnly_eq hbase]
  cases readOnly with
  | true => exact ⟨rfl, trivial⟩
  | false =>
    have hchanged : EntryChanged slot (fun entry => { entry with dirty := true }) pool
        (pool.changeEntry slot fun entry => { entry with dirty := true }) :=
      getElem?_entries_changeEntry _
    refine ⟨rfl, ⟨blockAt_changeEntry _ fun _ => rfl, pinsAt_changeEntry _ fun _ => rfl⟩,
      h.valid.changeEntry (fun _ => rfl) (fun _ => rfl) fun e he _ => ?_,
      ⟨base, hbase, (hc.modify hchanged (fun _ => rfl) (fun _ => rfl) (fun _ hd => by cases hd)
        fun _ _ _ _ _ hp => hp).unmark fun i e he hbe => ?_⟩, fun hr => by cases hr⟩
    · rw [blockAt_of_entry he] at hb
      rw [hb]
      rfl
    · have hi : slot = i := by
        refine h.valid.blockAt_inj hb ?_
        rw [← hchanged.blockAt fun _ => rfl, blockAt_of_entry he]
        exact hbe
      obtain ⟨old, -, rfl⟩ := hchanged.cases he
      rw [if_pos hi]

/-- The blocks with a change that is not recorded, after one was given back. -/
def unmarkedAfter (readOnly dirty : Bool) (block : Nat) (unmarked : Set Nat) : Set Nat :=
  if dirty = true ∧ readOnly = false then unmarked \ {block} else unmarked

theorem settle_ends (hD : FaithfulDisk size readOnly Holds)
    (h : Shows size readOnly Holds state shown unmarked) (hb : state.1.blockAt slot = some block)
    (dirty commit : Bool) :
    Ends (settle slot dirty commit) state fun r s' => SamePins state.1 s'.1 ∧
      Shows size readOnly Holds s' shown (unmarkedAfter readOnly dirty block unmarked) ∧
      (r = .ok () → (dirty = true → readOnly = false) ∧ (commit = true → s'.1.CleanAt slot)) ∧
      (commit = false → (dirty = true → readOnly = false) → r = .ok ()) := by
  -- The write-back is the same step whether or not the entry was flagged before it.
  have hcommit {s : Pool × δ} {unmarked : Set Nat}
      (hs : Shows size readOnly Holds s shown unmarked) :
      Ends (if commit = true then writeBack slot else pure ()) s fun r s' =>
        Shows size readOnly Holds s' shown unmarked ∧ SamePins s.1 s'.1 ∧
        (r = .ok () → commit = true → s'.1.CleanAt slot) ∧ (commit = false → r = .ok ()) := by
    cases commit with
    | false => exact ⟨hs, .refl _, fun _ hc => (nomatch hc), fun _ => rfl⟩
    | true =>
      refine (writeBack_ends hD hs slot).mono ?_
      rintro r s' ⟨hs', hw, hclean⟩
      exact ⟨hs', hw.toSamePins, fun hr _ => hclean hr, fun hc => nomatch hc⟩
  unfold settle
  cases dirty with
  | false =>
    refine (hcommit h).mono ?_
    rintro r s' ⟨hs', hsame, hclean, hok⟩
    exact ⟨hsame, hs', fun hr => ⟨fun hd => (nomatch hd), hclean hr⟩, fun hc _ => hok hc⟩
  | true =>
    refine (flag_ends hD h hb).bind ?_ ?_
    · rintro ⟨⟩ s' ⟨hw, hsame, hs'⟩
      refine (hcommit hs').mono ?_
      rintro r s'' ⟨hs'', hsame', hclean, hok⟩
      rw [unmarkedAfter, if_pos ⟨rfl, hw⟩]
      exact ⟨hsame.trans hsame', hs'', fun hr => ⟨fun _ => hw, hclean hr⟩, fun hc _ => hok hc⟩
    · rintro e s' ⟨hw, rfl⟩
      rw [unmarkedAfter, if_neg (by simp [hw])]
      exact ⟨.refl _, h, fun hr => (nomatch hr), fun _ hd => absurd (hw.symm.trans (hd rfl)) nofun⟩

private theorem cleanAt_unpin {pool : Pool} {i : Nat} (h : pool.CleanAt i) :
    (pool.unpin slot).CleanAt i := by
  intro entry he
  rw [getElem?_entries_unpin] at he
  split at he
  · obtain ⟨old, hold, rfl⟩ := Option.map_eq_some_iff.mp he
    exact h old hold
  · exact h entry he

omit [Disk δ] in
theorem Shows.unpin (h : Shows size readOnly Holds state shown unmarked) {handle : Handle}
    {pins : Nat} (hc : state.1.CheckedOut handle pins)
    (hlast : pins = 1 → handle.block ∉ unmarked) :
    Shows size readOnly Holds (state.1.unpin handle.slot, state.2) shown unmarked := by
  obtain ⟨base, hbase, hcaches⟩ := h.caches
  obtain ⟨hpos, hb, hp⟩ := hc
  obtain ⟨count, rfl⟩ : ∃ count, pins = count + 1 := ⟨pins - 1, by omega⟩
  refine ⟨h.valid.unpin hp, ⟨base, hbase, hcaches.modify (fun i => getElem?_entries_unpin i)
    (fun _ => rfl) (fun _ => rfl) (fun _ hd => hd) fun e b he hbe hu hpe => ?_⟩,
    h.unmarked_of_readOnly⟩
  rw [blockAt_of_entry he] at hb
  rw [pinsAt_of_entry he, Option.some.injEq] at hp
  obtain rfl := Option.some.inj (hbe.symm.trans hb)
  have : count + 1 ≠ 1 := fun h1 => hlast h1 hu
  change 0 < e.pins - 1
  omega

/-- A block can be given back as long as a change of it that is not recorded does not lose its last
pin. -/
theorem release_ends (hD : FaithfulDisk size readOnly Holds)
    (h : Shows size readOnly Holds state shown unmarked) (handle : Handle) (dirty commit : Bool)
    (hlast : dirty = false → state.1.CheckedOut handle 1 → handle.block ∉ unmarked) :
    Ends (release handle dirty commit) state fun r s' =>
      ((∀ pins, ¬ state.1.CheckedOut handle pins) ∧ s' = state ∧
        r = .error (.staleHandle handle.block)) ∨
      (∃ pins, state.1.CheckedOut handle pins) ∧
        Shows size readOnly Holds s' shown (unmarkedAfter readOnly dirty handle.block unmarked) ∧
        (r = .ok () → (dirty = true → readOnly = false) ∧
          (commit = true → s'.1.blockAt handle.slot = some handle.block ∧
            s'.1.CleanAt handle.slot)) ∧
        (commit = false → (dirty = true → readOnly = false) → r = .ok ()) := by
  obtain ⟨pool, disk⟩ := state
  unfold release
  simp only [ends_bind, ends_ask]
  cases he : pool.checkedOut handle with
  | error e =>
    refine .inl ⟨fun pins hc => ?_, trivial, ?_⟩
    · obtain ⟨entry, hok, -⟩ := checkedOut_iff.mp hc
      rw [he] at hok
      cases hok
    · rw [eq_stale_of_checkedOut he]
  | ok entry =>
    have hc : pool.CheckedOut handle entry.pins := checkedOut_iff.mpr ⟨entry, he, rfl⟩
    simp only [Except.map, ends_attempt, modifyPool, ends_modify, ends_ofExcept]
    -- The pin goes in any case; what was settled before decides what may be unpinned.
    refine (settle_ends hD h hc.2.1 dirty commit).mono ?_
    rintro r s' ⟨hsame, hs', hok, hsettled⟩
    refine .inr ⟨⟨_, hc⟩, hs'.unpin (hsame.checkedOut hc) fun h1 => ?_, fun hr => ?_, hsettled⟩
    · cases dirty with
      | false =>
        rw [unmarkedAfter, if_neg (by simp)]
        exact hlast rfl (h1 ▸ hc)
      | true =>
        unfold unmarkedAfter
        split
        · exact fun hu => hu.2 rfl
        · next hw =>
          -- A disk that cannot be written has no changes to lose.
          rw [h.unmarked_of_readOnly (by simpa using hw)]
          exact Set.notMem_empty _
    · refine ⟨(hok hr).1, fun hcommit => ⟨?_, cleanAt_unpin ((hok hr).2 hcommit)⟩⟩
      rw [blockAt_unpin]
      exact (hsame.checkedOut hc).2.1

theorem markDirty_ends (hD : FaithfulDisk size readOnly Holds)
    (h : Shows size readOnly Holds state shown unmarked) (block : Nat) :
    Ends (markDirty block) state fun r s' =>
      match r with
      | .ok _ => Shows size readOnly Holds s' shown (unmarked \ {block})
      | .error _ => s' = state := by
  obtain ⟨pool, disk⟩ := state
  cases hfind : pool.find? block with
  | none =>
    have hrun : (markDirty block).run (pool, disk) = .error (.staleHandle block) (pool, disk) := by
      simp [EStateM.run, markDirty, hfind]
    unfold Ends
    rw [hrun]
  | some slot =>
    have hends : Ends (markDirty block) (pool, disk) = Ends (flag slot) (pool, disk) := by
      unfold Ends EStateM.run markDirty
      simp only [hfind]
    rw [hends]
    refine (flag_ends hD h (h.valid.find?_eq_some_iff.mp hfind)).mono ?_
    rintro (e | ⟨⟩) s' hs'
    · exact hs'.2
    · exact hs'.2.2

/-! ## Whole blocks -/

theorem readBlock_ends (hD : FaithfulDisk size readOnly Holds)
    (h : Shows size readOnly Holds state shown unmarked) (block : Nat) :
    Ends (BlockCache.readBlock block) state fun r s' =>
      Shows size readOnly Holds s' shown unmarked ∧ ∀ bytes, r = .ok bytes → bytes = shown block := by
  unfold BlockCache.readBlock
  refine (acquire_ends hD h block).bind ?_ fun e s' hs' => ⟨hs'.1, fun _ hr => by cases hr⟩
  rintro handle s' ⟨hs', hok⟩
  obtain ⟨rfl, pins, hpins, hu⟩ := hok handle rfl
  simp only [ends_bind, ends_attempt, ends_ask, ends_ofExcept]
  refine (release_ends hD hs' handle false false fun _ h1 hmem => ?_).mono ?_
  · have := hu hmem
    have := h1.pins_eq hpins
    omega
  · rintro r s'' (⟨hstale, -⟩ | ⟨-, hs'', -⟩)
    · exact absurd hpins (hstale pins)
    · refine ⟨hs'', fun bytes hr => ?_⟩
      cases hd : BlockCache.data handle s' with
      | error e => simp [hd, Except.bind] at hr
      | ok copied =>
        cases r with
        | error e => simp [hd, Except.bind, Except.map] at hr
        | ok _ =>
          simp only [hd, Except.bind, Except.map, Except.ok.injEq] at hr
          exact hr ▸ hs'.data_eq hd

/-- A block that is replaced has no change that is not recorded, whatever it had before. -/
theorem writeBlock_ends (hD : FaithfulDisk size readOnly Holds)
    (h : Shows size readOnly Holds state shown unmarked) (block : Nat) (bytes : Block) :
    Ends (BlockCache.writeBlock block bytes) state fun r s' =>
      match r with
      | .ok _ => Shows size readOnly Holds s' (Function.update shown block bytes)
          (unmarked \ {block})
      | .error _ => Shows size readOnly Holds s' shown unmarked := by
  unfold BlockCache.writeBlock
  refine (acquire_ends hD h block).bind ?_ fun e s' hs' => hs'.1
  rintro handle s' ⟨hs', hok⟩
  obtain ⟨rfl, pins, hpins, hu⟩ := hok handle rfl
  simp only [ends_bind, ends_attempt, ends_ofExcept]
  refine (update_ends hD hs' handle fun _ => bytes).mono ?_
  rintro (e | ⟨⟩) s'' hs''
  · obtain rfl := hs''
    refine (release_ends hD hs' handle false false fun _ h1 hmem => ?_).mono ?_
    · have := hu hmem
      have := h1.pins_eq hpins
      omega
    · rintro r s''' (⟨hstale, -⟩ | ⟨-, hs''', -⟩)
      · exact absurd hpins (hstale pins)
      · exact hs'''
  · obtain ⟨hw, hsame, hs''⟩ := hs''
    refine (release_ends hD hs'' handle true false (fun hd => by cases hd)).mono ?_
    rintro r s''' (⟨hstale, -⟩ | ⟨-, hs''', -, hreleased⟩)
    · exact absurd (hsame.checkedOut hpins) (hstale pins)
    · obtain rfl := hreleased rfl fun _ => hw
      rw [unmarkedAfter, if_pos ⟨rfl, hw⟩, Set.insert_sdiff_of_mem _ (Set.mem_singleton _)] at hs'''
      exact hs'''

/-! ## The disk -/

omit [Disk δ] in
/-- The disk holds a block whose entry is clean. -/
theorem Shows.disk_eq (h : Shows size readOnly Holds state shown unmarked)
    (hb : state.1.blockAt slot = some block) (hclean : state.1.CleanAt slot)
    (hu : block ∉ unmarked) : ∃ base, Holds state.2 base ∧ base block = shown block := by
  obtain ⟨base, hbase, hc⟩ := h.caches
  obtain ⟨entry, he, hblock⟩ := blockAt_eq_some_iff.mp hb
  exact ⟨base, hbase, hc.clean he hblock (hclean entry he) hu⟩

omit [Disk δ] in
/-- The disk holds every block if all entries are clean. -/
theorem Shows.disk_eq_all (h : Shows size readOnly Holds state shown unmarked)
    (hclean : ∀ slot, state.1.CleanAt slot) :
    ∃ base, Holds state.2 base ∧ ∀ block, block ∉ unmarked → base block = shown block := by
  obtain ⟨base, hbase, hc⟩ := h.caches
  refine ⟨base, hbase, fun block hu => ?_⟩
  by_cases hb : ∃ slot, state.1.blockAt slot = some block
  · obtain ⟨slot, hslot⟩ := hb
    obtain ⟨entry, he, hblock⟩ := blockAt_eq_some_iff.mp hslot
    exact hc.clean he hblock (hclean slot entry he) hu
  · exact hc.absent (not_exists.mp hb)

theorem writeBackAll_ends (hD : FaithfulDisk size readOnly Holds)
    (h : Shows size readOnly Holds state shown unmarked) :
    Ends writeBackAll state fun r s' => Shows size readOnly Holds s' shown unmarked ∧
      (r = .ok () → ∀ slot, s'.1.CleanAt slot) := by
  have hrun : writeBackAll.run state = (writeBackFrom state.1.entries.size 0).run state := rfl
  refine (ends_congr hrun).mpr ((writeBackFrom_ends hD _ h).mono ?_)
  rintro r s' ⟨hs', hw, hclean⟩
  refine ⟨hs', fun hr i => ?_⟩
  by_cases hi : i < state.1.entries.size
  · exact hclean hr i (Nat.zero_le _) (by omega)
  · intro entry he
    rw [Array.getElem?_eq_none (by rw [hw.size_eq]; omega)] at he
    cases he

theorem sync_ends (hD : FaithfulDisk size readOnly Holds)
    (h : Shows size readOnly Holds state shown unmarked) :
    Ends sync state fun r s' => Shows size readOnly Holds s' shown unmarked ∧
      (r = .ok () → ∃ base, Holds s'.2 base ∧
        ∀ block, block ∉ unmarked → base block = shown block) := by
  refine (writeBackAll_ends hD h).bind ?_ fun e s' hs' => ⟨hs'.1, fun hr => by cases hr⟩
  rintro ⟨⟩ ⟨pool, disk⟩ ⟨hs', hclean⟩
  obtain ⟨base, hbase, hc⟩ := hs'.caches
  rw [ends_onSecond]
  refine (hD.flush_ends hbase).mono fun r disk' hbase' => ?_
  have hflushed : Shows size readOnly Holds (pool, disk') shown unmarked :=
    ⟨hs'.valid, ⟨base, hbase', hc⟩, hs'.unmarked_of_readOnly⟩
  exact ⟨hflushed, fun _ => hflushed.disk_eq_all (hclean rfl)⟩

end Diskette.Pool
