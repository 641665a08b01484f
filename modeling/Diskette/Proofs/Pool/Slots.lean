import Diskette.Proofs.Pool.Teardown

/-!
# The slots of a pool

Which blocks the slots are bound to, which of them are pinned, how many there are, and in which order
the idle ones are recycled. A slot changes in two ways only, by being lent and by being given back.
Of the disk nothing is assumed that has to do with its blocks: any access may fail.

* `SameSlots`: only bytes and marks differ.
* `Lends`: a block is checked out in the slot that it has, in the one that has been idle for longest,
  or in a new one.
* `Acquired`: what checking out a block can come to. `acquire_lends`: a block that cannot be checked
  out leaves the pool exactly as it was.
* `readBlock_slots`, `writeBlock_slots`: whole blocks are checked out and given back.
-/

namespace Diskette.Pool

open Diskette.Action

/-- The slots of both pools are bound, pinned and queued in the same way. -/
structure SameSlots (pool pool' : Pool) : Prop extends SamePins pool pool' where
  size_eq : pool'.entries.size = pool.entries.size
  idle_eq : pool'.idle = pool.idle

variable {pool pool' : Pool} {size slot block : Nat} {handle : Handle}

theorem SameSlots.refl (pool : Pool) : SameSlots pool pool := ⟨.refl pool, rfl, rfl⟩

theorem SameSlots.trans {first second third : Pool} (h : SameSlots first second)
    (h' : SameSlots second third) : SameSlots first third :=
  ⟨h.toSamePins.trans h'.toSamePins, h'.size_eq.trans h.size_eq, h'.idle_eq.trans h.idle_eq⟩

theorem WrittenBack.sameSlots (h : WrittenBack pool pool') : SameSlots pool pool' :=
  ⟨h.toSamePins, h.size_eq, h.idle_eq⟩

theorem sameSlots_changeEntry {change : Entry → Entry} (hb : ∀ e, (change e).block = e.block)
    (hp : ∀ e, (change e).pins = e.pins) : SameSlots pool (pool.changeEntry slot change) :=
  ⟨⟨blockAt_changeEntry change hb, pinsAt_changeEntry change hp⟩, Array.size_modify, rfl⟩

theorem SameSlots.unpin (h : SameSlots pool pool') (slot : Nat) :
    SameSlots (pool.unpin slot) (pool'.unpin slot) where
  blockAt_eq i := by rw [blockAt_unpin, blockAt_unpin, h.blockAt_eq]
  pinsAt_eq i := by rw [pinsAt_unpin, pinsAt_unpin, h.pinsAt_eq]
  size_eq := by
    show (pool'.entries.modify _ _).size = (pool.entries.modify _ _).size
    rw [Array.size_modify, Array.size_modify, h.size_eq]
  idle_eq := by rw [idle_unpin, idle_unpin, h.pinsAt_eq, h.idle_eq]

/-! ## Lending -/

/-- `pool'` is `pool` with a block checked out in a slot. -/
inductive Lends (pool : Pool) (block : Nat) : (slot : Nat) → (pool' : Pool) → Prop
  /-- The block is in the pool. -/
  | found {slot : Nat} (h : pool.find? block = some slot) : Lends pool block slot (pool.pin slot)
  /-- The block gets the slot that has been idle for longest, once its entry is written back. -/
  | recycled {slot : Nat} {rest : List Nat} {written : Pool} (data : Block)
      (hnew : pool.find? block = none) (hidle : pool.idle = slot :: rest)
      (hw : WrittenBack pool written) :
      Lends pool block slot ((written.unbind slot).bindTo slot block data)
  /-- No slot is idle, so the pool grows. -/
  | grown (data : Block) (hnew : pool.find? block = none) (hidle : pool.idle = []) :
      Lends pool block pool.entries.size (pool.grow.bindTo pool.entries.size block data)

@[simp] theorem size_unpin : (pool.unpin slot).entries.size = pool.entries.size := Array.size_modify

/-- The pool has a buffer more than before exactly if there was none for the block. -/
theorem Lends.size_eq (h : Lends pool block slot pool') :
    pool'.entries.size =
      if pool.idle = [] ∧ pool.find? block = none then pool.entries.size + 1
      else pool.entries.size := by
  cases h with
  | found h =>
    rw [if_neg (by simp [h])]
    exact Array.size_modify
  | recycled data hnew hidle hw =>
    rw [if_neg (by simp [hidle])]
    exact Array.size_modify.trans (Array.size_modify.trans hw.size_eq)
  | grown data hnew hidle =>
    rw [if_pos ⟨hidle, hnew⟩]
    exact Array.size_modify.trans (Array.size_push _)

/-- A slot that is lent is taken from the idle ones. -/
theorem Lends.idle_eq (h : Lends pool block slot pool') : pool'.idle = pool.idle.erase slot := by
  cases h with
  | found h => rfl
  | recycled data hnew hidle hw => exact congrArg (·.erase slot) hw.idle_eq
  | grown data hnew hidle =>
    show pool.idle = _
    rw [hidle]
    rfl

theorem Valid.lt_of_mem_idle (h : pool.Valid size) (hs : slot ∈ pool.idle) :
    slot < pool.entries.size := by
  have hpins := (h.mem_idle slot).mp hs
  by_contra hle
  simp [pinsAt, Array.getElem?_eq_none (Nat.le_of_not_lt hle)] at hpins

theorem lt_of_blockAt (h : pool.blockAt slot = some block) : slot < pool.entries.size := by
  obtain ⟨entry, he, -⟩ := blockAt_eq_some_iff.mp h
  exact (Array.getElem?_eq_some_iff.mp he).1

private theorem blockAt_bindTo_of_lt (h : slot < pool.entries.size) (data : Block) (i : Nat) :
    (pool.bindTo slot block data).blockAt i = if slot = i then some block else pool.blockAt i := by
  unfold blockAt
  rw [getElem?_entries_bindTo]
  split
  · next hi =>
    subst hi
    simp [h]
  · rfl

/-- The slot is bound to the block, and no other slot is bound anew. -/
theorem Lends.blockAt_eq (h : Lends pool block slot pool') (hv : pool.Valid size) (i : Nat) :
    pool'.blockAt i = if slot = i then some block else pool.blockAt i := by
  cases h with
  | found h =>
    rw [blockAt_pin]
    split
    · next hi => exact hi ▸ hv.find?_eq_some_iff.mp h
    · rfl
  | @recycled _ _ written data hnew hidle hw =>
    have hlt : slot < written.entries.size := by
      rw [hw.size_eq]
      exact hv.lt_of_mem_idle (hidle ▸ List.mem_cons_self)
    rw [blockAt_bindTo_of_lt (Nat.lt_of_lt_of_eq hlt Array.size_modify.symm), blockAt_unbind,
      hw.blockAt_eq]
    split <;> rfl
  | grown data hnew hidle =>
    have hlt : pool.entries.size < pool.grow.entries.size := by
      simp [grow]
    rw [blockAt_bindTo_of_lt hlt, blockAt_grow]

/-- The slot has one pin more than before, or its first one. -/
theorem Lends.pinsAt_eq (h : Lends pool block slot pool') (hv : pool.Valid size) :
    pool'.pinsAt slot = some ((pool.pinsAt slot).getD 0 + 1) := by
  cases h with
  | found h =>
    obtain ⟨entry, he, -⟩ := blockAt_eq_some_iff.mp (hv.find?_eq_some_iff.mp h)
    rw [pinsAt_pin, if_pos rfl, pinsAt_of_entry he]
    rfl
  | @recycled _ _ written data hnew hidle hw =>
    have hzero := (hv.mem_idle slot).mp (hidle ▸ List.mem_cons_self)
    have hkept : (written.unbind slot).pinsAt slot = some 0 := by
      rw [pinsAt_unbind, hw.pinsAt_eq, hzero]
    obtain ⟨entry, he, -⟩ := Option.map_eq_some_iff.mp hkept
    rw [hzero, pinsAt, getElem?_entries_bindTo, if_pos rfl, he]
    rfl
  | grown data hnew hidle =>
    rw [pinsAt, getElem?_entries_bindTo, if_pos rfl, getElem?_entries_grow, if_pos rfl]
    simp [pinsAt]

theorem Lends.exists_checkedOut (h : Lends pool block slot pool') (hv : pool.Valid size) :
    ∃ entry, pool'.checkedOut ⟨block, slot⟩ = .ok entry := by
  have hc : pool'.CheckedOut ⟨block, slot⟩ ((pool.pinsAt slot).getD 0 + 1) :=
    ⟨Nat.succ_pos _, (h.blockAt_eq hv slot).trans (if_pos rfl), h.pinsAt_eq hv⟩
  obtain ⟨entry, he, -⟩ := checkedOut_iff.mp hc
  exact ⟨entry, he⟩

/-- Given back, an idle slot is the last one to be recycled. -/
theorem Lends.idle_unpin (h : Lends pool block slot pool') (hv : pool.Valid size)
    (hs : slot ∈ pool.idle) : (pool'.unpin slot).idle = pool.idle.erase slot ++ [slot] := by
  have hone : pool'.pinsAt slot = some 1 := by
    rw [h.pinsAt_eq hv, (hv.mem_idle slot).mp hs]
    rfl
  rw [Pool.idle_unpin, if_pos hone, h.idle_eq]

/-! ## Actions -/

variable {δ : Type} [Disk δ] {state : Pool × δ}

/-- An entry that cannot be written back leaves the pool as it was. -/
theorem writeBack_slots (slot : Nat) :
    Ends (writeBack slot) state fun r s' => WrittenBack state.1 s'.1 ∧
      ∀ e, r = .error e → s'.1 = state.1 := by
  obtain ⟨pool, disk⟩ := state
  rcases writeBack_cases pool disk slot with
    ⟨-, hrun⟩ | ⟨block, data, -, ⟨disk', -, hrun⟩ | ⟨e, disk', -, hrun⟩⟩
  · exact (ends_of_run_eq_ok hrun).mpr ⟨.refl pool, nofun⟩
  · exact (ends_of_run_eq_ok hrun).mpr ⟨writtenBack_changeEntry pool slot, nofun⟩
  · exact (ends_of_run_eq_error hrun).mpr ⟨.refl pool, fun _ _ => rfl⟩

/-- What checking out a block can come to. -/
inductive Acquired (block : Nat) (state : Pool × δ) : EStateM.Result DiskError (Pool × δ) Handle → Prop
  | found {slot : Nat} (h : state.1.find? block = some slot) :
    Acquired block state (.ok ⟨block, slot⟩ (state.1.pin slot, state.2))
  | outOfRange (h : Disk.blocks state.2 ≤ block) :
    Acquired block state (.error (.blockOutOfRange block (Disk.blocks state.2)) state)
  | unread {e : DiskError} {disk : δ} (h : (Disk.read block).run state.2 = .error e disk) :
    Acquired block state (.error e (state.1, disk))
  | unwritten {slot : Nat} {rest : List Nat} {data : Block} {e : DiskError} {disk : δ}
    {after : Pool × δ} (hidle : state.1.idle = slot :: rest)
    (hread : (Disk.read block).run state.2 = .ok data disk)
    (h : (writeBack slot).run (state.1, disk) = .error e after) : Acquired block state (.error e after)
  | recycled {slot : Nat} {rest : List Nat} {data : Block} {disk : δ} {written : Pool × δ}
    (hnew : state.1.find? block = none) (hidle : state.1.idle = slot :: rest)
    (hread : (Disk.read block).run state.2 = .ok data disk)
    (hwrite : (writeBack slot).run (state.1, disk) = .ok () written) :
    Acquired block state
      (.ok ⟨block, slot⟩ ((written.1.unbind slot).bindTo slot block data, written.2))
  | grown {data : Block} {disk : δ} (hnew : state.1.find? block = none) (hidle : state.1.idle = [])
    (hread : (Disk.read block).run state.2 = .ok data disk) :
    Acquired block state (.ok ⟨block, state.1.entries.size⟩
      (state.1.grow.bindTo state.1.entries.size block data, disk))

theorem acquired (block : Nat) (state : Pool × δ) :
    Acquired block state ((acquire block).run state) := by
  obtain ⟨pool, disk⟩ := state
  cases hfind : pool.find? block with
  | some slot =>
    rw [run_acquire_of_resident disk hfind]
    exact .found hfind
  | none =>
    rw [run_acquire_of_absent disk hfind, bringIn, EStateM.run_bind, run_ask]
    -- One case for each way out of `bringIn`, in the order in which it can be left.
    by_cases hb : block < Disk.blocks disk
    · dsimp only
      rw [checkBlock_eq_ok_iff.mpr hb]
      dsimp only
      cases hread : (Disk.read block).run disk with
      | error e disk' =>
        simp only [EStateM.run_bind, onSecond, run_zoom, hread]
        exact .unread hread
      | ok data disk' =>
        rw [run_bind_of_ok (run_onSecond_of_ok hread), EStateM.run_bind]
        cases hidle : pool.idle with
        | nil =>
          rw [run_takeSlot_of_idle_nil disk' hidle]
          exact .grown hfind hidle hread
        | cons slot rest =>
          rw [run_takeSlot_of_idle hidle disk', EStateM.run_bind]
          cases hwrite : (writeBack slot).run (pool, disk') with
          | ok _ written => exact .recycled hfind hidle hread hwrite
          | error e after => exact .unwritten hidle hread hwrite
    · have hcheck : checkBlock block (Disk.blocks disk) =
          .error (.blockOutOfRange block (Disk.blocks disk)) := if_neg hb
      dsimp only
      rw [hcheck]
      exact .outOfRange (Nat.le_of_not_lt hb)

/-- Whatever makes it fail, checking out a block leaves the pool as it was. -/
theorem acquire_lends (block : Nat) :
    Ends (acquire block) state fun r s' =>
      match r with
      | .ok handle => handle.block = block ∧ Lends state.1 block handle.slot s'.1
      | .error _ => s'.1 = state.1 := by
  have h := acquired block state
  unfold Ends
  generalize (acquire block).run state = result at h ⊢
  cases h with
  | found h => exact ⟨rfl, .found h⟩
  | outOfRange | unread => rfl
  | unwritten hidle hread h => exact ((writeBack_slots _).of_error h).2 _ rfl
  | recycled hnew hidle hread hwrite =>
    exact ⟨rfl, .recycled _ hnew hidle ((writeBack_slots _).of_ok hwrite).1⟩
  | grown hnew hidle hread => exact ⟨rfl, .grown _ hnew hidle⟩

theorem update_slots (handle : Handle) (change : Block → Block) :
    Ends (update handle change) state fun _ s' => SameSlots state.1 s'.1 := by
  unfold update
  simp only [ends_bind, ends_ask, modifyPool, ends_modify]
  split
  · exact sameSlots_changeEntry (fun _ => rfl) fun _ => rfl
  · exact .refl _

theorem flag_slots (slot : Nat) :
    Ends (flag slot) state fun _ s' => SameSlots state.1 s'.1 := by
  unfold flag
  simp only [ends_bind, ends_ask, modifyPool, ends_modify]
  split
  · exact sameSlots_changeEntry (fun _ => rfl) fun _ => rfl
  · exact .refl _

theorem settle_slots (slot : Nat) (dirty commit : Bool) :
    Ends (settle slot dirty commit) state fun _ s' => SameSlots state.1 s'.1 := by
  have hcommit {s : Pool × δ} (hs : SameSlots state.1 s.1) :
      Ends (if commit = true then writeBack slot else pure ()) s fun _ s' =>
        SameSlots state.1 s'.1 := by
    split
    · exact (writeBack_slots slot).mono fun _ _ hs' => hs.trans hs'.1.sameSlots
    · exact hs
  unfold settle
  cases dirty with
  | false => exact hcommit (.refl _)
  | true => exact (flag_slots slot).bind (fun _ _ hs => hcommit hs) fun _ _ hs => hs

/-- Whatever comes of giving a block back, a pin is taken, and nothing else happens to the slots. -/
theorem release_slots {entry : Entry} (h : state.1.checkedOut handle = .ok entry)
    (dirty commit : Bool) :
    Ends (release handle dirty commit) state fun _ s' =>
      SameSlots (state.1.unpin handle.slot) s'.1 := by
  obtain ⟨pool, disk⟩ := state
  unfold release
  simp only [ends_bind, ends_ask, h, Except.map, ends_attempt, modifyPool, ends_modify,
    ends_ofExcept]
  exact (settle_slots handle.slot dirty commit).mono fun _ _ hs => hs.unpin handle.slot

/-- To mark a block is to flag the slot that it has. -/
theorem ends_markDirty {block : Nat} {Q : Except DiskError Unit → Pool × δ → Prop}
    (hflag : ∀ slot, Ends (flag slot) state Q) (hstale : Q (.error (.staleHandle block)) state) :
    Ends (markDirty block) state Q := by
  obtain ⟨pool, disk⟩ := state
  cases hfind : pool.find? block with
  | none =>
    have hrun : (markDirty block).run (pool, disk) = .error (.staleHandle block) (pool, disk) := by
      simp [EStateM.run, markDirty, hfind]
    exact (ends_of_run_eq_error hrun).mpr hstale
  | some slot =>
    have hrun : (markDirty block).run (pool, disk) = (flag slot).run (pool, disk) := by
      simp [EStateM.run, markDirty, hfind]
    exact (ends_congr hrun).mpr (hflag slot)

theorem markDirty_slots (block : Nat) :
    Ends (markDirty block) state fun _ s' => SameSlots state.1 s'.1 :=
  ends_markDirty flag_slots (.refl _)

theorem writeBackFrom_slots (count : Nat) :
    ∀ {state : Pool × δ} (slot : Nat),
      Ends (writeBackFrom count slot) state fun _ s' => SameSlots state.1 s'.1 := by
  induction count with
  | zero => exact fun _ => .refl _
  | succ count ih =>
    intro state slot
    apply (writeBack_slots slot).bind
    · rintro ⟨⟩ s' ⟨hw, -⟩
      exact (ih (slot + 1)).mono fun _ _ hs => hw.sameSlots.trans hs
    · exact fun _ _ hw => hw.1.sameSlots

theorem sync_slots : Ends sync state fun _ s' => SameSlots state.1 s'.1 := by
  have hrun : writeBackAll.run state = (writeBackFrom state.1.entries.size 0).run state := rfl
  have hall : Ends writeBackAll state fun _ s' => SameSlots state.1 s'.1 :=
    (ends_congr hrun).mpr (writeBackFrom_slots _ 0)
  refine hall.bind ?_ fun _ _ hs => hs
  rintro ⟨⟩ ⟨pool', disk'⟩ hs
  rw [ends_onSecond, ends_iff]
  exact hs

/-! ## Whole blocks -/

/-- A block was checked out and given back, or it could not be checked out. -/
def Visits (block : Nat) (state state' : Pool × δ) : Prop :=
  match (acquire block).run state with
  | .ok handle lent => SameSlots (lent.1.unpin handle.slot) state'.1
  | .error _ after => state' = after

private theorem visits_of_acquire {α : Type} (hv : state.1.Valid size)
    {use : Handle → Action (Pool × δ) α}
    (huse : ∀ {handle : Handle} {entry : Entry} {lent : Pool × δ},
      lent.1.checkedOut handle = .ok entry →
      Ends (use handle) lent fun _ s' => SameSlots (lent.1.unpin handle.slot) s'.1) :
    Ends (acquire block >>= use) state fun _ s' => Visits block state s' := by
  unfold Visits
  have hlends : Ends (acquire block) state _ := acquire_lends block
  unfold Ends at hlends
  refine ends_bind.mpr ?_
  unfold Ends
  cases hr : (acquire block).run state with
  | error e after => rfl
  | ok handle lent =>
    rw [hr] at hlends
    obtain ⟨rfl, hlends⟩ := hlends
    obtain ⟨entry, he⟩ := hlends.exists_checkedOut hv
    exact huse he

theorem readBlock_slots (hv : state.1.Valid size) (block : Nat) :
    Ends (BlockCache.readBlock block) state fun _ s' => Visits block state s' := by
  refine visits_of_acquire hv fun he => ?_
  simp only [ends_bind, ends_attempt, ends_ask, ends_ofExcept]
  exact release_slots he false false

theorem writeBlock_slots (hv : state.1.Valid size) (block : Nat) (bytes : Block) :
    Ends (BlockCache.writeBlock block bytes) state fun _ s' => Visits block state s' := by
  refine visits_of_acquire hv fun {handle entry lent} he => ?_
  simp only [ends_bind, ends_attempt, ends_ofExcept]
  apply (update_slots handle fun _ => bytes).mono
  rintro r changed hsame
  obtain ⟨entry', he', -⟩ := checkedOut_iff.mp
    (hsame.checkedOut (checkedOut_iff.mpr ⟨entry, he, rfl⟩))
  exact (release_slots he' r.isOk false).mono fun _ _ hs => (hsame.unpin handle.slot).trans hs

end Diskette.Pool
