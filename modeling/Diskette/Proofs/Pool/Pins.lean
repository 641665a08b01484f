import Diskette.Proofs.Device.Faults
import Diskette.Proofs.Device.Steady
import Diskette.Proofs.Pool.Run

/-!
# The pins of a pool

How often each block is checked out, under which handle, and what the actions of a pool do about it.
Nothing is assumed of the disk but that its size stays the same and that it knows nothing of handles:
any access may fail, and what was read may be anything.

* `pinsOn`: how often a block is checked out under a handle.
* `Tidy`: a well-formed pool in front of its disk.
* `tidy_acquire`, `tidy_release`: checking a block out adds a pin to its handle, giving it back takes
  one, even if it fails, unless the handle is stale.
* `tidy_perform`: what a request does to the pins.
-/

namespace Diskette

open Diskette.Action

/-- A disk of a fixed size whose writes do not fail for want of a handle. -/
structure Oblivious (δ : Type) [Disk δ] : Prop extends Steady δ where
  throws_write (block : Nat) (data : Block) :
    Throws DiskError.OfImage (Disk.write block data : Action δ Unit)

theorem Device.oblivious : Oblivious (Device × Host) := ⟨Device.steady, Device.throws_write⟩

namespace Pool

variable {pool pool' : Pool} {size slot block : Nat} {handle : Handle}

/-- How often a block is checked out under a handle. -/
def pinsOn (pool : Pool) (handle : Handle) : Nat :=
  if pool.blockAt handle.slot = some handle.block then (pool.pinsAt handle.slot).getD 0 else 0

theorem pinsOn_of_bound (h : pool.blockAt handle.slot = some handle.block) :
    pool.pinsAt handle.slot = some (pool.pinsOn handle) := by
  obtain ⟨entry, he, -⟩ := blockAt_eq_some_iff.mp h
  rw [pinsOn, if_pos h, pinsAt_of_entry he]
  rfl

theorem pinsOn_of_ne (h : pool.blockAt handle.slot ≠ some handle.block) : pool.pinsOn handle = 0 :=
  if_neg h

theorem bound_of_pinsOn (h : 0 < pool.pinsOn handle) :
    pool.blockAt handle.slot = some handle.block := by
  by_contra hne
  rw [pinsOn_of_ne hne] at h
  exact Nat.lt_irrefl 0 h

theorem checkedOut_iff_pinsOn {pins : Nat} :
    pool.CheckedOut handle pins ↔ 0 < pins ∧ pool.pinsOn handle = pins := by
  constructor
  · rintro ⟨hpos, hb, hp⟩
    rw [pinsOn_of_bound hb, Option.some.injEq] at hp
    exact ⟨hpos, hp⟩
  · rintro ⟨hpos, rfl⟩
    exact ⟨hpos, bound_of_pinsOn hpos, pinsOn_of_bound (bound_of_pinsOn hpos)⟩

/-- A block is checked out under one handle at most. -/
theorem Valid.handle_eq (h : pool.Valid size) {other : Handle} (hblock : other.block = handle.block)
    (hother : 0 < pool.pinsOn other) (hp : 0 < pool.pinsOn handle) : other = handle := by
  obtain ⟨b, s⟩ := other
  obtain ⟨b', s'⟩ := handle
  obtain rfl : b = b' := hblock
  have hslot : s = s' := h.blockAt_inj (bound_of_pinsOn hother) (bound_of_pinsOn hp)
  rw [hslot]

theorem Valid.find?_of_pinsOn (h : pool.Valid size) (hp : 0 < pool.pinsOn handle) :
    pool.find? handle.block = some handle.slot :=
  h.find?_eq_some_iff.mpr (bound_of_pinsOn hp)

/-! ## Changes of one slot -/

theorem SamePins.pinsOn_eq (h : SamePins pool pool') : pool'.pinsOn = pool.pinsOn := by
  funext handle
  rw [pinsOn, pinsOn, h.blockAt_eq, h.pinsAt_eq]

/-- A change of the pins of a bound slot, which no other handle notices. -/
private theorem pinsOn_of_pinsAt (change : Nat → Nat)
    (hb : pool.blockAt handle.slot = some handle.block)
    (hblocks : ∀ i, pool'.blockAt i = pool.blockAt i)
    (hpins : ∀ i, pool'.pinsAt i =
      if handle.slot = i then (pool.pinsAt i).map change else pool.pinsAt i) :
    pool'.pinsOn = Function.update pool.pinsOn handle (change (pool.pinsOn handle)) := by
  funext other
  by_cases hother : other = handle
  · subst hother
    have hb' : pool'.blockAt other.slot = some other.block := (hblocks _).trans hb
    have hp := pinsOn_of_bound hb'
    rw [hpins, if_pos rfl, pinsOn_of_bound hb, Option.map_some, Option.some.injEq] at hp
    rw [Function.update_self, hp]
  · rw [Function.update_of_ne hother, pinsOn, pinsOn, hblocks, hpins]
    by_cases hslot : handle.slot = other.slot
    · have hne : pool.blockAt other.slot ≠ some other.block := by
        rw [← hslot, hb]
        intro he
        obtain ⟨b, s⟩ := other
        obtain ⟨b', s'⟩ := handle
        obtain rfl : s' = s := hslot
        obtain rfl : b' = b := Option.some.inj he
        exact hother rfl
      rw [if_neg hne, if_neg hne]
    · rw [if_neg hslot]

theorem pinsOn_pin (hb : pool.blockAt handle.slot = some handle.block) :
    (pool.pin handle.slot).pinsOn =
      Function.update pool.pinsOn handle (pool.pinsOn handle + 1) :=
  pinsOn_of_pinsAt (· + 1) hb blockAt_pin pinsAt_pin

theorem pinsOn_unpin (hb : pool.blockAt handle.slot = some handle.block) :
    (pool.unpin handle.slot).pinsOn =
      Function.update pool.pinsOn handle (pool.pinsOn handle - 1) :=
  pinsOn_of_pinsAt (· - 1) hb blockAt_unpin pinsAt_unpin

/-- What is not pinned can be taken from its block. -/
theorem pinsOn_unbind (h : pool.pinsAt slot = some 0) : (pool.unbind slot).pinsOn = pool.pinsOn := by
  funext other
  rw [pinsOn, pinsOn, blockAt_unbind, pinsAt_unbind]
  by_cases hslot : slot = other.slot
  · rw [if_pos hslot, if_neg nofun, ← hslot, h]
    simp
  · rw [if_neg hslot]

theorem pinsOn_grow : pool.grow.pinsOn = pool.pinsOn := by
  funext other
  rw [pinsOn, pinsOn, blockAt_grow]
  by_cases hb : pool.blockAt other.slot = some other.block
  · obtain ⟨entry, he, -⟩ := blockAt_eq_some_iff.mp hb
    have hne : other.slot ≠ pool.entries.size :=
      Nat.ne_of_lt (Array.getElem?_eq_some_iff.mp he).1
    rw [if_pos hb, if_pos hb, pinsAt, pinsAt, getElem?_entries_grow, if_neg hne]
  · rw [if_neg hb, if_neg hb]

theorem Reserved.pinsOn_bindTo (h : pool.Reserved size slot) (data : Block) :
    (pool.bindTo slot block data).pinsOn = Function.update pool.pinsOn ⟨block, slot⟩ 1 := by
  funext other
  obtain ⟨b, s⟩ := other
  rw [pinsOn, h.blockAt_bindTo]
  by_cases hslot : slot = s
  · subst hslot
    by_cases hblock : block = b
    · subst hblock
      obtain ⟨entry, he⟩ := Option.isSome_iff_exists.mp h.exists_entry
      rw [Function.update_self, if_pos rfl, if_pos rfl, pinsAt, getElem?_entries_bindTo, if_pos rfl,
        he]
      rfl
    · have hne : (⟨b, slot⟩ : Handle) ≠ ⟨block, slot⟩ := by
        intro he
        cases he
        exact hblock rfl
      rw [Function.update_of_ne hne, if_pos rfl, if_neg (by simpa using hblock),
        pinsOn_of_ne (by rw [h.blockAt_eq_none]; exact (Option.some_ne_none _).symm)]
  · have hne : (⟨b, s⟩ : Handle) ≠ ⟨block, slot⟩ := by
      intro he
      cases he
      exact hslot rfl
    rw [Function.update_of_ne hne, if_neg hslot, pinsOn, pinsAt, pinsAt, getElem?_entries_bindTo,
      if_neg hslot]

/-- Nothing is checked out of a new pool. -/
theorem pinsOn_ofSize (count : Nat) (handle : Handle) : (ofSize count).pinsOn handle = 0 := by
  unfold pinsOn pinsAt
  split
  · simp only [ofSize, Array.getElem?_replicate]
    split <;> rfl
  · rfl

/-! ## Actions -/

variable {δ : Type} [Disk δ] {state : Pool × δ}

/-- A well-formed pool in front of a disk of `size` blocks. -/
structure Tidy (size : Nat) (state : Pool × δ) : Prop where
  blocks_eq : Disk.blocks state.2 = size
  valid : state.1.Valid size

/-- The pool is tidy, and no block is checked out more often or less often than before. -/
def Level (size : Nat) (state state' : Pool × δ) : Prop :=
  Tidy size state' ∧ state'.1.pinsOn = state.1.pinsOn

theorem Level.trans {first second third : Pool × δ} (h : Level size first second)
    (h' : Level size second third) : Level size first third :=
  ⟨h'.1, h'.2.trans h.2⟩

theorem tidy_writeBack (hD : Oblivious δ) (h : Tidy size state) (slot : Nat) :
    Ends (writeBack slot) state fun r s' => Tidy size s' ∧ WrittenBack state.1 s'.1 ∧
      (r = .ok () → s'.1.CleanAt slot) ∧ ∀ e, r = .error e → e.OfImage := by
  obtain ⟨pool, disk⟩ := state
  rcases h.valid.dirty_or_cleanAt slot with ⟨block, data, pins, he⟩ | hclean
  · have hwrite := (hD.write block data disk).and (hD.throws_write block data disk)
    unfold Ends EStateM.run writeBack at *
    simp only [he]
    cases hr : Disk.write block data disk with
    | ok a disk' =>
      cases a
      rw [hr] at hwrite
      refine ⟨⟨hwrite.1.trans h.blocks_eq, ?_⟩, writtenBack_changeEntry pool slot,
        fun _ => cleanAt_changeEntry pool slot, nofun⟩
      exact h.valid.changeEntry (fun _ => rfl) (fun _ => rfl) fun _ _ hd => nomatch hd
    | error e disk' =>
      rw [hr] at hwrite
      exact ⟨⟨hwrite.1.trans h.blocks_eq, h.valid⟩, .refl pool, nofun, hwrite.2⟩
  · rw [ends_of_run_eq_ok (run_writeBack_of_cleanAt hclean disk)]
    exact ⟨h, .refl pool, fun _ => hclean, nofun⟩

theorem level_writeBackFrom (hD : Oblivious δ) (count : Nat) :
    ∀ {state : Pool × δ} (slot : Nat), Tidy size state →
      Ends (writeBackFrom count slot) state fun _ s' => Level size state s' := by
  induction count with
  | zero => exact fun _ h => ⟨h, rfl⟩
  | succ count ih =>
    intro state slot h
    apply (tidy_writeBack hD h slot).bind
    · rintro _ s' ⟨hs, hw, -⟩
      exact (ih (slot + 1) hs).mono fun _ _ hs' => Level.trans ⟨hs, hw.pinsOn_eq⟩ hs'
    · rintro _ s' ⟨hs, hw, -⟩
      exact ⟨hs, hw.pinsOn_eq⟩

/-- Whatever slot is taken, nothing is checked out of it, and no block gets a slot by that. -/
theorem tidy_takeSlot (hD : Oblivious δ) (h : Tidy size state) :
    Ends takeSlot state fun r s' => s'.1.pinsOn = state.1.pinsOn ∧
      match r with
      | .ok slot => Disk.blocks s'.2 = size ∧ s'.1.Reserved size slot ∧
        ∀ block, (∀ i, state.1.blockAt i ≠ some block) → ∀ i, s'.1.blockAt i ≠ some block
      | .error _ => Tidy size s' := by
  obtain ⟨pool, disk⟩ := state
  cases hidle : pool.idle with
  | nil =>
    rw [ends_of_run_eq_ok (run_takeSlot_of_idle_nil disk hidle)]
    exact ⟨pinsOn_grow, h.blocks_eq, h.valid.grow, fun block hb i => by
      rw [blockAt_grow]
      exact hb i⟩
  | cons slot rest =>
    refine (ends_congr (run_takeSlot_of_idle hidle disk)).mpr ?_
    apply (tidy_writeBack hD h slot).bind
    · rintro _ s' ⟨hs, hw, hclean, -⟩
      have hmem : slot ∈ s'.1.idle := by
        rw [hw.idle_eq, hidle]
        exact List.mem_cons_self
      -- An idle entry has no pins, so taking its block away takes none.
      have hpins : (s'.1.unbind slot).pinsOn = pool.pinsOn :=
        (pinsOn_unbind ((hs.valid.mem_idle slot).mp hmem)).trans hw.pinsOn_eq
      refine ⟨hpins, hs.blocks_eq, hs.valid.unbind hmem (hclean rfl), fun block hb i => ?_⟩
      show (s'.1.unbind slot).blockAt i ≠ some block
      rw [blockAt_unbind]
      split
      · exact (Option.some_ne_none _).symm
      · rw [hw.blockAt_eq]
        exact hb i
    · rintro _ s' ⟨hs, hw, -⟩
      exact ⟨hw.pinsOn_eq, hs⟩

/-- The pool is tidy. It has one pin more than before, on the handle of the block that was checked
out, or the same pins if none was. -/
def Grants (size block : Nat) (state : Pool × δ) (r : Except DiskError Handle) (state' : Pool × δ) :
    Prop :=
  match r with
  | .ok handle => Tidy size state' ∧ handle.block = block ∧
    state'.1.pinsOn = Function.update state.1.pinsOn handle (state.1.pinsOn handle + 1)
  | .error _ => Level size state state'

theorem grants_bringIn (hD : Oblivious δ) (h : Tidy size state)
    (hnew : ∀ i, state.1.blockAt i ≠ some block) :
    Ends (bringIn block) state (Grants size block state) := by
  obtain ⟨pool, disk⟩ := state
  unfold bringIn
  simp only [ends_bind, ends_ask, ends_onSecond, modifyPool, ends_modify, ends_pure]
  cases hcheck : checkBlock block (Disk.blocks disk) with
  | error e => exact ⟨h, rfl⟩
  | ok _ =>
    have hlt : block < size := h.blocks_eq ▸ checkBlock_eq_ok_iff.mp hcheck
    refine (hD.read block disk).mono fun r disk' hread => ?_
    have htidy : Tidy size (pool, disk') := ⟨hread.trans h.blocks_eq, h.valid⟩
    cases r with
    | error e => exact ⟨htidy, rfl⟩
    | ok data =>
      apply (tidy_takeSlot hD htidy).mono
      rintro r s' ⟨hpins, hs⟩
      cases r with
      | error e => exact ⟨hs, hpins⟩
      | ok slot =>
        obtain ⟨hblocks, hreserved, hkept⟩ := hs
        have hzero : pool.pinsOn ⟨block, slot⟩ = 0 := pinsOn_of_ne (hnew slot)
        refine ⟨⟨hblocks, hreserved.bindTo hlt (hkept block hnew) data⟩, rfl, ?_⟩
        exact (hreserved.pinsOn_bindTo data).trans (by rw [hpins, hzero])

theorem grants_acquire (hD : Oblivious δ) (h : Tidy size state) (block : Nat) :
    Ends (acquire block) state (Grants size block state) := by
  obtain ⟨pool, disk⟩ := state
  cases hfind : pool.find? block with
  | some slot =>
    let handle : Handle := ⟨block, slot⟩
    have hb : pool.blockAt handle.slot = some handle.block := h.valid.find?_eq_some_iff.mp hfind
    rw [ends_of_run_eq_ok (run_acquire_of_resident disk hfind)]
    exact ⟨⟨h.blocks_eq, h.valid.pin hb⟩, rfl, pinsOn_pin hb⟩
  | none =>
    rw [ends_congr (run_acquire_of_absent disk hfind)]
    exact grants_bringIn hD h (h.valid.find?_eq_none_iff.mp hfind)

/-- A block that is checked out is checked out again under the same handle. -/
theorem outcome_acquire_of_pinsOn (h : Tidy size state) (hp : 0 < state.1.pinsOn handle) :
    (acquire handle.block).outcome state = .ok handle := by
  have hrun := run_acquire_of_resident state.2 (h.valid.find?_of_pinsOn hp)
  exact outcome_of_run_eq_ok hrun

/-! ## Handles -/

/-- A handle is good if its block is checked out under it. -/
theorem exists_checkedOut_iff :
    (∃ entry, pool.checkedOut handle = .ok entry) ↔ 0 < pool.pinsOn handle := by
  constructor
  · rintro ⟨entry, he⟩
    obtain ⟨hpos, hp⟩ := checkedOut_iff_pinsOn.mp (checkedOut_iff.mpr ⟨entry, he, rfl⟩)
    rwa [hp]
  · intro hpos
    obtain ⟨entry, he, -⟩ := checkedOut_iff.mp (checkedOut_iff_pinsOn.mpr ⟨hpos, rfl⟩)
    exact ⟨entry, he⟩

theorem checkedOut_of_pinsOn_eq_zero (h : pool.pinsOn handle = 0) :
    pool.checkedOut handle = .error (.staleHandle handle.block) := by
  cases he : pool.checkedOut handle with
  | ok entry =>
    have hpos := exists_checkedOut_iff.mp ⟨entry, he⟩
    omega
  | error e => rw [eq_stale_of_checkedOut he]

omit [Disk δ] in
theorem data_eq_stale (h : state.1.pinsOn handle = 0) :
    data handle state = .error (.staleHandle handle.block) := by
  obtain ⟨pool, disk⟩ := state
  dsimp only [data]
  rw [checkedOut_of_pinsOn_eq_zero h]
  rfl

theorem run_update_of_stale (h : state.1.pinsOn handle = 0) (change : Block → Block) :
    (update handle change).run state = .error (.staleHandle handle.block) state := by
  obtain ⟨pool, disk⟩ := state
  unfold update
  rw [EStateM.run_bind, run_ask]
  dsimp only
  rw [checkedOut_of_pinsOn_eq_zero h]
  rfl

theorem run_release_of_stale (h : state.1.pinsOn handle = 0) (dirty commit : Bool) :
    (release handle dirty commit).run state = .error (.staleHandle handle.block) state := by
  obtain ⟨pool, disk⟩ := state
  unfold release
  rw [EStateM.run_bind, run_ask]
  dsimp only
  rw [checkedOut_of_pinsOn_eq_zero h]
  rfl

omit [Disk δ] in
theorem data_isOk_iff_pinsOn : (data handle state).isOk ↔ 0 < state.1.pinsOn handle := by
  rw [data_isOk_iff]
  constructor
  · rintro ⟨pins, hc⟩
    obtain ⟨hpos, hp⟩ := checkedOut_iff_pinsOn.mp hc
    rwa [hp]
  · exact fun hpos => ⟨_, checkedOut_iff_pinsOn.mpr ⟨hpos, rfl⟩⟩

theorem level_update (h : Tidy size state) (handle : Handle) (change : Block → Block) :
    Ends (update handle change) state fun _ s' => Level size state s' := by
  unfold update
  simp only [ends_bind, ends_ask, modifyPool, ends_modify]
  split
  · exact ⟨⟨h.blocks_eq, h.valid.changeEntry (fun _ => rfl) (fun _ => rfl) fun e he hd =>
      h.valid.bound he (.inl hd)⟩, SamePins.pinsOn_eq
        ⟨blockAt_changeEntry _ fun _ => rfl, pinsAt_changeEntry _ fun _ => rfl⟩⟩
  · exact ⟨h, rfl⟩

theorem level_flag (h : Tidy size state) (hb : state.1.blockAt slot = some block) :
    Ends (flag slot) state fun r s' => Level size state s' ∧ SamePins state.1 s'.1 ∧
      (Disk.readOnly state.2 = false → r = .ok ()) ∧ ∀ e, r = .error e → e.OfImage := by
  obtain ⟨pool, disk⟩ := state
  unfold flag
  simp only [ends_bind, ends_ask, modifyPool, ends_modify]
  cases hro : Disk.readOnly disk with
  | true =>
    refine ⟨⟨h, rfl⟩, .refl pool, fun hwritable => ?_, fun e he => Except.error.inj he ▸ trivial⟩
    cases hwritable
  | false =>
    have hsame : SamePins pool (pool.changeEntry slot fun entry => { entry with dirty := true }) :=
      ⟨blockAt_changeEntry _ fun _ => rfl, pinsAt_changeEntry _ fun _ => rfl⟩
    refine ⟨⟨⟨h.blocks_eq, h.valid.changeEntry (fun _ => rfl) (fun _ => rfl) fun e he _ => ?_⟩,
      hsame.pinsOn_eq⟩, hsame, fun _ => trivial, fun e he => ?_⟩
    · rw [← blockAt_of_entry he, hb]
      rfl
    · cases he

theorem level_settle (hD : Oblivious δ) (h : Tidy size state)
    (hb : state.1.blockAt slot = some block) (dirty commit : Bool) :
    Ends (settle slot dirty commit) state fun r s' => Tidy size s' ∧ SamePins state.1 s'.1 ∧
      (commit = false → (dirty = true → Disk.readOnly state.2 = false) → r = .ok ()) ∧
      ∀ e, r = .error e → e.OfImage := by
  have hcommit {s : Pool × δ} (hs : Tidy size s) (hsame : SamePins state.1 s.1) :
      Ends (if commit = true then writeBack slot else pure ()) s fun r s' =>
        Tidy size s' ∧ SamePins state.1 s'.1 ∧ (commit = false → r = .ok ()) ∧
        ∀ e, r = .error e → e.OfImage := by
    cases commit with
    | false =>
      refine ⟨hs, hsame, fun _ => rfl, fun e he => ?_⟩
      cases he
    | true =>
      apply (tidy_writeBack hD hs slot).mono
      rintro r s' ⟨hs', hw, -, hr⟩
      refine ⟨hs', hsame.trans hw.toSamePins, fun hkeep => ?_, hr⟩
      cases hkeep
  unfold settle
  cases dirty with
  | false =>
    apply (hcommit h (.refl _)).mono
    rintro r s' ⟨hs, hsame, hok, hr⟩
    exact ⟨hs, hsame, fun hc _ => hok hc, hr⟩
  | true =>
    apply (level_flag h hb).bind
    · rintro _ s' ⟨hs, hsame, -⟩
      apply (hcommit hs.1 hsame).mono
      rintro r s' ⟨hs, hsame, hok, hr⟩
      exact ⟨hs, hsame, fun hc _ => hok hc, hr⟩
    · rintro e s' ⟨hs, hsame, hok, hr⟩
      refine ⟨hs.1, hsame, fun _ hw => ?_, hr⟩
      cases hok (hw rfl)

/-- A block is given back: one pin is taken, whatever comes of it. It fails only with an error of the
image, and not at all if nothing has to be written and marking is allowed. -/
theorem tidy_release (hD : Oblivious δ) (h : Tidy size state) (hp : 0 < state.1.pinsOn handle)
    (dirty commit : Bool) :
    Ends (release handle dirty commit) state fun r s' => Tidy size s' ∧
      SamePins (state.1.unpin handle.slot) s'.1 ∧
      (commit = false → (dirty = true → Disk.readOnly state.2 = false) → r = .ok ()) ∧
      ∀ e, r = .error e → e.OfImage := by
  obtain ⟨pool, disk⟩ := state
  obtain ⟨entry, he⟩ := exists_checkedOut_iff.mpr hp
  have hb := bound_of_pinsOn hp
  unfold release
  simp only [ends_bind, ends_ask, he, Except.map, ends_attempt, modifyPool, ends_modify,
    ends_ofExcept]
  apply (level_settle hD h hb dirty commit).mono
  rintro r s' ⟨hs, hsame, hok, hr⟩
  have hpins : s'.1.pinsAt handle.slot = some (pool.pinsOn handle - 1 + 1) := by
    rw [hsame.pinsAt_eq, pinsOn_of_bound hb, Nat.sub_add_cancel hp]
  refine ⟨⟨hs.blocks_eq, hs.valid.unpin hpins⟩, ⟨fun i => ?_, fun i => ?_⟩, hok, hr⟩
  · rw [blockAt_unpin, blockAt_unpin]
    exact hsame.blockAt_eq i
  · rw [pinsAt_unpin, pinsAt_unpin, hsame.pinsAt_eq]

theorem level_markDirty (h : Tidy size state) (block : Nat) :
    Ends (markDirty block) state fun _ s' => Level size state s' := by
  obtain ⟨pool, disk⟩ := state
  cases hfind : pool.find? block with
  | none =>
    have hrun : (markDirty block).run (pool, disk) = .error (.staleHandle block) (pool, disk) := by
      simp [EStateM.run, markDirty, hfind]
    exact (ends_of_run_eq_error hrun).mpr ⟨h, rfl⟩
  | some slot =>
    have hrun : (markDirty block).run (pool, disk) = (flag slot).run (pool, disk) := by
      simp [EStateM.run, markDirty, hfind]
    exact (ends_congr hrun).mpr
      ((level_flag h (h.valid.find?_eq_some_iff.mp hfind)).mono fun _ _ hs => hs.1)

theorem level_sync (hD : Oblivious δ) (h : Tidy size state) :
    Ends sync state fun _ s' => Level size state s' := by
  have hrun : writeBackAll.run state = (writeBackFrom state.1.entries.size 0).run state := rfl
  have hall : Ends writeBackAll state fun _ s' => Level size state s' :=
    (ends_congr hrun).mpr (level_writeBackFrom hD _ 0 h)
  refine hall.bind ?_ fun _ _ hs => hs
  rintro _ ⟨pool, disk⟩ hs
  rw [ends_onSecond]
  exact (hD.flush disk).mono fun _ _ hd => ⟨⟨hd.trans hs.1.blocks_eq, hs.1.valid⟩, hs.2⟩

/-! ## Requests -/

/-- A pin that is taken right after it was added is as if it had never been there. -/
private theorem level_release_of_acquired (hD : Oblivious δ) {s : Pool × δ}
    (hs : Tidy size s)
    (hp : s.1.pinsOn = Function.update state.1.pinsOn handle (state.1.pinsOn handle + 1))
    (dirty commit : Bool) :
    Ends (release handle dirty commit) s fun _ s' => Level size state s' := by
  have hpos : 0 < s.1.pinsOn handle := by
    rw [hp, Function.update_self]
    exact Nat.succ_pos _
  apply (tidy_release hD hs hpos dirty commit).mono
  rintro r s' ⟨hs', hsame, -⟩
  refine ⟨hs', ?_⟩
  rw [hsame.pinsOn_eq, pinsOn_unpin (bound_of_pinsOn hpos), hp, Function.update_self,
    Nat.add_sub_cancel, Function.update_idem, Function.update_eq_self]

theorem level_readBlock (hD : Oblivious δ) (h : Tidy size state) (block : Nat) :
    Ends (BlockCache.readBlock block) state fun _ s' => Level size state s' := by
  unfold BlockCache.readBlock
  refine (grants_acquire hD h block).bind ?_ fun _ _ hs => hs
  rintro handle s₁ ⟨h₁, -, hp⟩
  simp only [ends_bind, ends_attempt, ends_ask, ends_ofExcept]
  exact level_release_of_acquired hD h₁ hp false false

theorem level_writeBlock (hD : Oblivious δ) (h : Tidy size state) (block : Nat) (bytes : Block) :
    Ends (BlockCache.writeBlock block bytes) state fun _ s' => Level size state s' := by
  unfold BlockCache.writeBlock
  refine (grants_acquire hD h block).bind ?_ fun _ _ hs => hs
  rintro handle s₁ ⟨h₁, -, hp⟩
  simp only [ends_bind, ends_attempt, ends_ofExcept]
  apply (level_update h₁ handle fun _ => bytes).mono
  rintro r s₂ ⟨h₂, hsame⟩
  exact level_release_of_acquired hD h₂ (hsame.trans hp) r.isOk false

end Pool

end Diskette
