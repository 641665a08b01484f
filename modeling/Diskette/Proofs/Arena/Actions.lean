import Diskette.Proofs.Agree
import Diskette.Proofs.Arena.Represents
import Diskette.Proofs.Device.Steady
import Diskette.Proofs.Pool.Actions

/-!
# An arena does what its pool does

In front of the same disk an arena and a pool that it represents answer alike, whatever the disk
does as long as its size stays the same. What they are left with is again an arena and a pool that it
represents, and the pool is well formed, even after an access to the disk failed half way.

* `Tied`: the two caches, side by side.
* `takeSlot_agree`: the slot that is recycled, or the new one.
* `alternates`: both caches agree on everything that can be asked of them.
-/

namespace Diskette.Arena

open Diskette.Action

variable {δ : Type} [Disk δ] {size slot block : Nat} {arena : Arena} {pool : Pool} {disk : δ}

/-- An arena and a pool that it represents, in front of the same disk of `size` blocks. -/
structure Tied (size : Nat) (state : Arena × δ) (state' : Pool × δ) : Prop where
  disk_eq : state'.2 = state.2
  blocks_eq : Disk.blocks state.2 = size
  represents : state.1.Represents state'.1
  valid : state'.1.Valid size

theorem Tied.exists_eq {s : Arena × δ} {t : Pool × δ} (h : Tied size s t) :
    ∃ arena pool disk, s = (arena, disk) ∧ t = (pool, disk) :=
  ⟨s.1, t.1, s.2, rfl, Prod.ext rfl h.disk_eq⟩

theorem Tied.find?_eq (h : Tied size (arena, disk) (pool, disk)) (block : Nat) :
    arena.find? block = pool.find? block := h.represents.find?_eq h.valid.toChained block

/-- A change of what a buffer holds that keeps its block and its pins. -/
theorem Tied.changeEntry (h : Tied size (arena, disk) (pool, disk)) {change : Pool.Entry → Pool.Entry}
    (hb : ∀ e, (change e).block = e.block) (hp : ∀ e, (change e).pins = e.pins)
    (hd : ∀ e, pool.entries[slot]? = some e → (change e).dirty = true → e.block.isSome) :
    Tied size (arena.changeEntry slot change, disk) (pool.changeEntry slot change, disk) :=
  ⟨rfl, h.blocks_eq, h.represents.changeEntry slot change, h.valid.changeEntry hb hp hd⟩

/-! ## A slot for a block -/

theorem writeBack_agree (hD : Steady δ) (h : Tied size (arena, disk) (pool, disk)) (slot : Nat) :
    Agree (writeBack slot) (arena, disk) (Pool.writeBack slot) (pool, disk) fun r s t =>
      Tied size s t ∧ pool.WrittenBack t.1 ∧ (r = .ok () → t.1.CleanAt slot) := by
  unfold Agree
  rcases h.valid.dirty_or_cleanAt slot with ⟨block, data, pins, he⟩ | hclean
  · have hblocks := hD.write block data disk
    unfold Ends at hblocks
    unfold EStateM.run writeBack Pool.writeBack at *
    simp only [h.represents.entryAt_eq, he]
    cases hw : Disk.write block data disk with
    | ok a disk' =>
      rw [hw] at hblocks
      have hlater : Tied size (arena, disk') (pool, disk') :=
        ⟨rfl, hblocks.trans h.blocks_eq, h.represents, h.valid⟩
      exact ⟨trivial, hlater.changeEntry (fun _ => rfl) (fun _ => rfl) (fun _ _ hd => by cases hd),
        Pool.writtenBack_changeEntry pool slot, fun _ => Pool.cleanAt_changeEntry pool slot⟩
    | error e disk' =>
      rw [hw] at hblocks
      exact ⟨rfl, ⟨rfl, hblocks.trans h.blocks_eq, h.represents, h.valid⟩, .refl pool,
        fun hr => by cases hr⟩
  · have hrun : (writeBack slot).run (arena, disk) = .ok () (arena, disk) := by
      unfold EStateM.run writeBack
      dsimp only
      rw [h.represents.entryAt_eq]
      split
      · next he => cases hclean _ he
      · rfl
    rw [hrun, Pool.run_writeBack_of_cleanAt hclean]
    exact ⟨rfl, h, .refl pool, fun _ => hclean⟩

theorem writeBackFrom_agree (hD : Steady δ) (count : Nat) :
    ∀ {s : Arena × δ} {t : Pool × δ} {slot : Nat}, Tied size s t →
      Agree (writeBackFrom count slot) s (Pool.writeBackFrom count slot) t fun _ => Tied size := by
  induction count with
  | zero => exact fun h => agree_pure h
  | succ count ih =>
    intro s t slot h
    obtain ⟨arena, pool, disk, rfl, rfl⟩ := h.exists_eq
    exact ((writeBack_agree hD h slot).mono fun _ _ _ h => h.1).andThen fun _ _ _ h => ih h

/-- Both take the same slot, and no block gets a slot by that. -/
theorem takeSlot_agree (hD : Steady δ) (h : Tied size (arena, disk) (pool, disk)) :
    Agree takeSlot (arena, disk) Pool.takeSlot (pool, disk) fun r s t =>
      match r with
      | .ok slot => t.2 = s.2 ∧ Disk.blocks s.2 = size ∧ s.1.Represents t.1 ∧
        t.1.Reserved size slot ∧
        ∀ block, (∀ i, pool.blockAt i ≠ some block) → ∀ i, t.1.blockAt i ≠ some block
      | .error _ => Tied size s t := by
  -- The head link decides for the arena what the first of the queue decides for the pool.
  have hhead : arena.head = pool.idle.head? := h.represents.forward.start_eq
  unfold Agree
  cases hidle : pool.idle with
  | nil =>
    rw [hidle] at hhead
    have hrun : takeSlot.run (arena, disk) = .ok arena.cells.size (arena.grow, disk) := by
      simp [EStateM.run, takeSlot, hhead]
    rw [hrun, Pool.run_takeSlot_of_idle_nil disk hidle]
    refine ⟨h.represents.size_eq, rfl, h.blocks_eq, h.represents.grow,
      h.represents.size_eq ▸ h.valid.grow, fun block hb i => ?_⟩
    rw [Pool.blockAt_grow]
    exact hb i
  | cons slot rest =>
    rw [hidle] at hhead
    unfold EStateM.run takeSlot Pool.takeSlot
    simp only [hhead, List.head?_cons, hidle]
    rcases (writeBack_agree hD h slot).cases with
      ⟨_, s, t, hs, ht, htied, hwritten, hclean⟩ | ⟨e, s, t, hs, ht, htied, -⟩
    · unfold EStateM.run at hs ht
      rw [hs, ht]
      have hmem : slot ∈ t.1.idle := by
        rw [hwritten.idle_eq, hidle]
        exact List.mem_cons_self
      refine ⟨rfl, htied.disk_eq, htied.blocks_eq, htied.represents.unbind htied.valid hmem,
        htied.valid.unbind hmem (hclean rfl), fun block hb i => ?_⟩
      rw [Pool.blockAt_unbind]
      split
      · intro hb
        cases hb
      · rw [hwritten.blockAt_eq]
        exact hb i
    · unfold EStateM.run at hs ht
      rw [hs, ht]
      exact ⟨rfl, htied⟩

theorem bringIn_agree (hD : Steady δ) (h : Tied size (arena, disk) (pool, disk))
    (hnew : ∀ i, pool.blockAt i ≠ some block) :
    Agree (bringIn block) (arena, disk) (Pool.bringIn block) (pool, disk) fun _ => Tied size := by
  have hcheck : Agree (ask fun state => checkBlock block (Disk.blocks state.2)) (arena, disk)
      (ask fun state => checkBlock block (Disk.blocks state.2)) (pool, disk) fun r s t =>
      s = (arena, disk) ∧ t = (pool, disk) ∧ (r = .ok () → block < size) :=
    agree_ask rfl ⟨rfl, rfl, fun hr => h.blocks_eq ▸ checkBlock_eq_ok_iff.mp hr⟩
  refine hcheck.bind ?_ ?_
  · rintro ⟨⟩ s t ⟨rfl, rfl, hlt⟩
    refine Agree.bind (Q := fun _ s t => s.1 = arena ∧ t.1 = pool ∧ Tied size s t) ?_ ?_ ?_
    · refine agree_onSecond ((hD.read block disk).mono fun _ disk' hblocks => ?_)
      exact ⟨rfl, rfl, rfl, hblocks.trans h.blocks_eq, h.represents, h.valid⟩
    · rintro data s t ⟨rfl, rfl, hread⟩
      obtain ⟨arena, pool, disk, rfl, rfl⟩ := hread.exists_eq
      refine (takeSlot_agree hD hread).bind ?_ fun _ _ _ h => h
      rintro slot s t ⟨hdisk, hblocks, hrep, hres, hkept⟩
      have hbound := hres.bindTo (hlt rfl) (hkept block hnew) data
      exact (agree_modify ⟨hdisk, hblocks, hrep.bindTo hres block data, hbound⟩).andThen
        fun _ _ _ h => agree_pure h
    · exact fun _ _ _ h => h.2.2
  · rintro e s t ⟨rfl, rfl, -⟩
    exact h

theorem acquire_agree (hD : Steady δ) (h : Tied size (arena, disk) (pool, disk)) (block : Nat) :
    Agree (acquire block) (arena, disk) (Pool.acquire block) (pool, disk) fun _ => Tied size := by
  cases hfind : pool.find? block with
  | some slot =>
    unfold Agree
    rw [run_acquire_of_found disk ((h.find?_eq block).trans hfind),
      Pool.run_acquire_of_resident disk hfind]
    exact ⟨rfl, rfl, h.blocks_eq, h.represents.pin h.valid slot,
      h.valid.pin (h.valid.find?_eq_some_iff.mp hfind)⟩
  | none =>
    refine (agree_congr (run_acquire_of_not_found disk ((h.find?_eq block).trans hfind))
      (Pool.run_acquire_of_absent disk hfind)).mpr ?_
    exact bringIn_agree hD h (h.valid.find?_eq_none_iff.mp hfind)

/-! ## Checked-out blocks -/

theorem update_agree (h : Tied size (arena, disk) (pool, disk)) (handle : Handle)
    (change : Block → Block) :
    Agree (update handle change) (arena, disk) (Pool.update handle change) (pool, disk)
      fun _ => Tied size := by
  refine Agree.bind (Q := fun _ s t => s = (arena, disk) ∧ t = (pool, disk)) ?_ ?_ ?_
  · refine agree_ask ?_ ⟨rfl, rfl⟩
    simp only [h.represents.checkedOut_eq]
  · rintro - s t ⟨rfl, rfl⟩
    exact agree_modify (h.changeEntry (fun _ => rfl) (fun _ => rfl) fun e he hd =>
      h.valid.bound he (.inl hd))
  · rintro e s t ⟨rfl, rfl⟩
    exact h

theorem flag_agree (h : Tied size (arena, disk) (pool, disk)) (hb : pool.blockAt slot = some block) :
    Agree (flag slot) (arena, disk) (Pool.flag slot) (pool, disk) fun _ s t =>
      Tied size s t ∧ pool.SamePins t.1 := by
  refine Agree.bind (Q := fun _ s t => s = (arena, disk) ∧ t = (pool, disk)) ?_ ?_ ?_
  · exact agree_ask rfl ⟨rfl, rfl⟩
  · rintro - s t ⟨rfl, rfl⟩
    refine agree_modify ⟨h.changeEntry (fun _ => rfl) (fun _ => rfl) fun e he _ => ?_, ?_⟩
    · rw [← Pool.blockAt_of_entry he, hb]
      rfl
    · exact ⟨Pool.blockAt_changeEntry _ fun _ => rfl, Pool.pinsAt_changeEntry _ fun _ => rfl⟩
  · rintro e s t ⟨rfl, rfl⟩
    exact ⟨h, .refl pool⟩

theorem settle_agree (hD : Steady δ) (h : Tied size (arena, disk) (pool, disk))
    (hb : pool.blockAt slot = some block) (dirty commit : Bool) :
    Agree (settle slot dirty commit) (arena, disk) (Pool.settle slot dirty commit) (pool, disk)
      fun _ s t => Tied size s t ∧ pool.SamePins t.1 := by
  have hcommit {s : Arena × δ} {t : Pool × δ} (hs : Tied size s t) (hsame : pool.SamePins t.1) :
      Agree (if commit = true then writeBack slot else pure ()) s
        (if commit = true then Pool.writeBack slot else pure ()) t
        fun _ s t => Tied size s t ∧ pool.SamePins t.1 := by
    obtain ⟨arena, pool', disk, rfl, rfl⟩ := hs.exists_eq
    cases commit with
    | false => exact agree_pure ⟨hs, hsame⟩
    | true =>
      exact (writeBack_agree hD hs slot).mono fun _ _ _ h => ⟨h.1, hsame.trans h.2.1.toSamePins⟩
  unfold settle Pool.settle
  cases dirty with
  | false => exact hcommit h (.refl pool)
  | true => exact (flag_agree h hb).bind (fun _ _ _ hs => hcommit hs.1 hs.2) fun _ _ _ hs => hs

theorem release_agree (hD : Steady δ) (h : Tied size (arena, disk) (pool, disk)) (handle : Handle)
    (dirty commit : Bool) :
    Agree (release handle dirty commit) (arena, disk) (Pool.release handle dirty commit) (pool, disk)
      fun _ => Tied size := by
  refine Agree.bind (Q := fun r s t => s = (arena, disk) ∧ t = (pool, disk) ∧
    (r = .ok () → ∃ pins, pool.CheckedOut handle pins)) ?_ ?_ ?_
  · refine agree_ask ?_ ⟨rfl, rfl, fun hr => ?_⟩
    · dsimp only
      rw [h.represents.checkedOut_eq]
    · change (arena.checkedOut handle).map (fun _ => ()) = .ok () at hr
      rw [h.represents.checkedOut_eq] at hr
      cases he : pool.checkedOut handle with
      | ok entry => exact ⟨_, Pool.checkedOut_iff.mpr ⟨entry, he, rfl⟩⟩
      | error e => simp [he, Except.map] at hr
  · rintro ⟨⟩ s t ⟨rfl, rfl, hc⟩
    obtain ⟨pins, hpos, hb, hpins⟩ := hc rfl
    refine Agree.bind (Q := fun _ s t => Tied size s t ∧ pool.SamePins t.1)
      (settle_agree hD h hb dirty commit).attempt ?_ fun _ _ _ hs => hs.1
    rintro settled s t ⟨hs, hsame⟩
    have hpins' : t.1.pinsAt handle.slot = some (pins - 1 + 1) := by
      rw [hsame.pinsAt_eq, hpins, Nat.sub_add_cancel hpos]
    exact (agree_modify ⟨hs.disk_eq, hs.blocks_eq, hs.represents.unpin hs.valid hpins',
      hs.valid.unpin hpins'⟩).andThen fun _ _ _ h => agree_ofExcept h
  · rintro e s t ⟨rfl, rfl, -⟩
    exact h

theorem markDirty_agree (h : Tied size (arena, disk) (pool, disk)) (block : Nat) :
    Agree (markDirty block) (arena, disk) (Pool.markDirty block) (pool, disk)
      fun _ => Tied size := by
  cases hfind : pool.find? block with
  | some slot =>
    have hrun : (markDirty block).run (arena, disk) = (flag slot).run (arena, disk) := by
      simp [EStateM.run, markDirty, h.find?_eq, hfind]
    have hrun' : (Pool.markDirty block).run (pool, disk) = (Pool.flag slot).run (pool, disk) := by
      simp [EStateM.run, Pool.markDirty, hfind]
    exact (agree_congr hrun hrun').mpr
      ((flag_agree h (h.valid.find?_eq_some_iff.mp hfind)).mono fun _ _ _ hs => hs.1)
  | none =>
    unfold Agree EStateM.run markDirty Pool.markDirty
    simp only [h.find?_eq, hfind]
    exact ⟨trivial, h⟩

theorem sync_agree (hD : Steady δ) (h : Tied size (arena, disk) (pool, disk)) :
    Agree sync (arena, disk) Pool.sync (pool, disk) fun _ => Tied size := by
  refine Agree.andThen (R := Tied size) ?_ fun _ s t hs => ?_
  · have hrun' : Pool.writeBackAll.run (pool, disk) =
        (Pool.writeBackFrom arena.cells.size 0).run (pool, disk) := by
      rw [h.represents.size_eq]
      rfl
    exact (agree_congr rfl hrun').mpr (writeBackFrom_agree hD arena.cells.size h)
  · obtain ⟨arena, pool, disk, rfl, rfl⟩ := hs.exists_eq
    exact agree_onSecond ((hD.flush disk).mono fun _ _ hblocks =>
      ⟨rfl, hblocks.trans hs.blocks_eq, hs.represents, hs.valid⟩)

/-- An arena and its pool agree on everything that can be asked of them. -/
theorem alternates (hD : Steady δ) :
    Alternates fun (s : Arena × δ) (t : Pool × δ) => Tied size s t where
  acquire h block := by
    obtain ⟨arena, pool, disk, rfl, rfl⟩ := h.exists_eq
    exact acquire_agree hD h block
  data_eq h handle := congrArg (Except.map _) (h.represents.checkedOut_eq handle).symm
  update h handle change := by
    obtain ⟨arena, pool, disk, rfl, rfl⟩ := h.exists_eq
    exact update_agree h handle change
  release h handle dirty commit := by
    obtain ⟨arena, pool, disk, rfl, rfl⟩ := h.exists_eq
    exact release_agree hD h handle dirty commit
  markDirty h block := by
    obtain ⟨arena, pool, disk, rfl, rfl⟩ := h.exists_eq
    exact markDirty_agree h block
  sync h := by
    obtain ⟨arena, pool, disk, rfl, rfl⟩ := h.exists_eq
    exact sync_agree hD h

end Diskette.Arena
