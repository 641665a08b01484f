import Diskette.Proofs.Agree
import Diskette.Proofs.Pool.Touched

/-!
# Pools before disks that agree

What a pool does to the disk behind it are reads, writes and flushes. So the same pool before two
kinds of disk that agree on these does the same, and the disks stay related. Before a disk that may
not be written no entry is ever marked as changed.

* `DisksAgree`: two kinds of disk that agree in related states.
* `Pool.Paired`: one pool before both.
* `Pool.alternates`: the pools agree on all that a cache can do.
-/

namespace Diskette

open Diskette.Action

variable {δ δ' : Type} [Disk δ] [Disk δ'] {R : δ → δ' → Prop}

/-- In related states the two kinds of disk agree, and the states stay related. -/
structure DisksAgree (R : δ → δ' → Prop) : Prop where
  blocks_eq {disk : δ} {disk' : δ'} (h : R disk disk') : Disk.blocks disk' = Disk.blocks disk
  readOnly_eq {disk : δ} {disk' : δ'} (h : R disk disk') :
    Disk.readOnly disk' = Disk.readOnly disk
  read (block : Nat) : Parallel R (Disk.read block) (Disk.read block)
  write (block : Nat) (data : Block) : Parallel R (Disk.write block data) (Disk.write block data)
  flush : Parallel R Disk.flush Disk.flush

namespace Pool

variable {isProtected : Prop} {pool pool' : Pool} {disk : δ} {disk' : δ'} {slot : Nat}

/-- The same pool stands before disks that are related. If they are protected, no entry is to be
written back. -/
structure Paired (isProtected : Prop) (R : δ → δ' → Prop) (s : Pool × δ) (t : Pool × δ') :
    Prop where
  pool_eq : t.1 = s.1
  disks : R s.2 t.2
  cleanAt (h : isProtected) (slot : Nat) : s.1.CleanAt slot

omit [Disk δ] [Disk δ'] in
/-- A change of the pool that leaves nothing to be written back. -/
theorem parallel_modifyPool {change : Pool → Pool}
    (h : ∀ pool : Pool, (∀ slot, pool.CleanAt slot) → ∀ slot, (change pool).CleanAt slot) :
    Parallel (Paired isProtected R) (modifyPool change) (modifyPool change) := by
  refine parallel_modify ?_
  rintro ⟨pool, disk⟩ ⟨pool', disk'⟩ ⟨hpool, hd, hclean⟩
  obtain rfl : pool = pool' := hpool.symm
  exact ⟨rfl, hd, fun hp => h pool (hclean hp)⟩

/-- A change of one entry leaves nothing to be written back, if it marks nothing as changed. -/
theorem EntryChanged.cleanAt {change : Entry → Entry} (hc : EntryChanged slot change pool pool')
    (hd : ∀ entry, entry.dirty = false → (change entry).dirty = false)
    (h : ∀ i, pool.CleanAt i) (i : Nat) : pool'.CleanAt i := by
  intro entry he
  obtain ⟨old, hold, rfl⟩ := hc.cases he
  split
  · exact hd old (h i old hold)
  · exact h i old hold

/-! ## A slot for a block -/

theorem run_writeBack_of_ne
    (h : ∀ block data pins, pool.entries[slot]? ≠ some ⟨some block, data, true, pins⟩) (disk : δ) :
    (writeBack slot).run (pool, disk) = .ok () (pool, disk) := by
  unfold EStateM.run writeBack
  dsimp only
  split
  · next he => exact absurd he (h _ _ _)
  · rfl

theorem parallel_writeBack (hR : DisksAgree R) (slot : Nat) :
    Parallel (Paired isProtected R) (writeBack slot) (writeBack slot) := by
  rintro ⟨pool, disk⟩ ⟨pool', disk'⟩ ⟨hpool, hd, hclean⟩
  obtain rfl : pool = pool' := hpool.symm
  by_cases hchanged : ∃ block data pins, pool.entries[slot]? = some ⟨some block, data, true, pins⟩
  · obtain ⟨block, data, pins, he⟩ := hchanged
    unfold Agree EStateM.run writeBack
    simp only [he]
    rcases (hR.write block data hd).cases with ⟨⟨⟩, d, d', hs, ht, hdd⟩ | ⟨e, d, d', hs, ht, hdd⟩
    · unfold EStateM.run at hs ht
      rw [hs, ht]
      exact ⟨trivial, rfl, hdd, fun hp i => (writtenBack_changeEntry _ slot).cleanAt (hclean hp i)⟩
    · unfold EStateM.run at hs ht
      rw [hs, ht]
      exact ⟨rfl, rfl, hdd, hclean⟩
  · have hne : ∀ block data pins, pool.entries[slot]? ≠ some ⟨some block, data, true, pins⟩ :=
      fun block data pins he => hchanged ⟨block, data, pins, he⟩
    unfold Agree
    rw [run_writeBack_of_ne hne, run_writeBack_of_ne hne]
    exact ⟨rfl, rfl, hd, hclean⟩

theorem parallel_takeSlot (hR : DisksAgree R) :
    Parallel (Paired isProtected R) takeSlot takeSlot := by
  rintro ⟨pool, disk⟩ ⟨pool', disk'⟩ ⟨hpool, hd, hclean⟩
  obtain rfl : pool = pool' := hpool.symm
  cases hidle : pool.idle with
  | nil =>
    unfold Agree
    rw [run_takeSlot_of_idle_nil disk hidle, run_takeSlot_of_idle_nil disk' hidle]
    exact ⟨rfl, rfl, hd, fun hp i => (cleanAt_grow i).mpr (hclean hp i)⟩
  | cons slot rest =>
    refine (agree_congr (run_takeSlot_of_idle hidle disk)
      (run_takeSlot_of_idle hidle disk')).mpr ?_
    refine ((parallel_writeBack hR slot).bind fun _ => (parallel_modifyPool fun pool h => ?_).bind
      fun _ => parallel_pure slot) ⟨rfl, hd, hclean⟩
    exact EntryChanged.cleanAt (fun i => getElem?_entries_unbind i) (fun _ => id) h

theorem parallel_bringIn (hR : DisksAgree R) (block : Nat) :
    Parallel (Paired isProtected R) (bringIn block) (bringIn block) := by
  refine (parallel_ask fun s t h => congrArg (checkBlock block) (hR.blocks_eq h.disks)).bind
    fun _ => ?_
  have hread : Parallel (Paired isProtected R) (onSecond (Disk.read block))
      (onSecond (Disk.read block)) :=
    (hR.read block).zoom (fun h => h.disks) fun h hd => ⟨h.pool_eq, hd, h.cleanAt⟩
  refine hread.bind fun data => (parallel_takeSlot hR).bind fun slot => ?_
  refine (parallel_modifyPool fun pool h => ?_).bind fun _ => parallel_pure _
  exact EntryChanged.cleanAt (fun i => getElem?_entries_bindTo data i) (fun _ _ => rfl) h

theorem parallel_acquire (hR : DisksAgree R) (block : Nat) :
    Parallel (Paired isProtected R) (acquire block) (acquire block) := by
  rintro ⟨pool, disk⟩ ⟨pool', disk'⟩ ⟨hpool, hd, hclean⟩
  obtain rfl : pool = pool' := hpool.symm
  cases hfind : pool.find? block with
  | some slot =>
    unfold Agree
    rw [run_acquire_of_resident disk hfind, run_acquire_of_resident disk' hfind]
    refine ⟨rfl, rfl, hd, fun hp => ?_⟩
    exact EntryChanged.cleanAt (fun i => getElem?_entries_pin i) (fun _ => id) (hclean hp)
  | none =>
    refine (agree_congr (run_acquire_of_absent disk hfind)
      (run_acquire_of_absent disk' hfind)).mpr ?_
    exact parallel_bringIn hR block ⟨rfl, hd, hclean⟩

/-! ## Checked-out blocks -/

theorem parallel_update (hR : DisksAgree R) (handle : Handle) (change : Block → Block) :
    Parallel (Paired isProtected R) (update handle change) (update handle change) := by
  refine (parallel_ask fun s t h => ?_).bind fun _ => parallel_modifyPool fun pool h => ?_
  · dsimp only
    rw [h.pool_eq, hR.readOnly_eq h.disks]
  · exact EntryChanged.cleanAt (fun i => getElem?_entries_changeEntry _ i) (fun _ => id) h

/-- Nothing is marked as changed before a disk that is protected. -/
theorem parallel_flag (hR : DisksAgree R)
    (hp : isProtected → ∀ {disk disk'}, R disk disk' → Disk.readOnly disk = true) (slot : Nat) :
    Parallel (Paired isProtected R) (flag slot) (flag slot) := by
  rintro ⟨pool, disk⟩ ⟨pool', disk'⟩ ⟨hpool, hd, hclean⟩
  obtain rfl : pool = pool' := hpool.symm
  have hsame := hR.readOnly_eq hd
  unfold Agree EStateM.run flag
  simp only [bind, EStateM.bind, ask, hsame]
  cases hr : Disk.readOnly disk with
  | true => exact ⟨rfl, rfl, hd, hclean⟩
  | false =>
    refine ⟨trivial, rfl, hd, fun hprotected => ?_⟩
    rw [hp hprotected hd] at hr
    cases hr

theorem parallel_settle (hR : DisksAgree R)
    (hp : isProtected → ∀ {disk disk'}, R disk disk' → Disk.readOnly disk = true) (slot : Nat)
    (dirty commit : Bool) :
    Parallel (Paired isProtected R) (settle slot dirty commit) (settle slot dirty commit) := by
  have hcommit : Parallel (Paired isProtected R) (settle slot false commit)
      (settle slot false commit) := by
    cases commit with
    | false => exact parallel_pure ()
    | true => exact parallel_writeBack hR slot
  cases dirty with
  | false => exact hcommit
  | true => exact (parallel_flag hR hp slot).bind fun _ => hcommit

theorem parallel_release (hR : DisksAgree R)
    (hp : isProtected → ∀ {disk disk'}, R disk disk' → Disk.readOnly disk = true) (handle : Handle)
    (dirty commit : Bool) :
    Parallel (Paired isProtected R) (release handle dirty commit) (release handle dirty commit) := by
  refine (parallel_ask fun s t h => ?_).bind fun _ => ?_
  · dsimp only
    rw [h.pool_eq]
  refine (parallel_settle hR hp handle.slot dirty commit).attempt.bind fun settled => ?_
  refine (parallel_modifyPool fun pool h => ?_).bind fun _ => parallel_ofExcept settled
  exact EntryChanged.cleanAt (fun i => getElem?_entries_unpin i) (fun _ => id) h

theorem parallel_markDirty (hR : DisksAgree R)
    (hp : isProtected → ∀ {disk disk'}, R disk disk' → Disk.readOnly disk = true) (block : Nat) :
    Parallel (Paired isProtected R) (markDirty block) (markDirty block) := by
  rintro ⟨pool, disk⟩ ⟨pool', disk'⟩ ⟨hpool, hd, hclean⟩
  obtain rfl : pool = pool' := hpool.symm
  cases hfind : pool.find? block with
  | some slot =>
    have hrun {δ : Type} [Disk δ] (disk : δ) :
        (markDirty block).run (pool, disk) = (flag slot).run (pool, disk) := by
      simp [EStateM.run, markDirty, hfind]
    exact (agree_congr (hrun disk) (hrun disk')).mpr (parallel_flag hR hp slot ⟨rfl, hd, hclean⟩)
  | none =>
    unfold Agree EStateM.run markDirty
    simp only [hfind]
    exact ⟨trivial, rfl, hd, hclean⟩

/-! ## Everything is written back -/

theorem parallel_writeBackFrom (hR : DisksAgree R) (count : Nat) :
    ∀ slot, Parallel (Paired isProtected R) (writeBackFrom count slot)
      (writeBackFrom count slot) := by
  induction count with
  | zero => exact fun _ => parallel_pure ()
  | succ count ih => exact fun slot => (parallel_writeBack hR slot).bind fun _ => ih _

theorem parallel_sync (hR : DisksAgree R) : Parallel (Paired isProtected R) sync sync := by
  have hall : Parallel (Paired isProtected R) writeBackAll writeBackAll := by
    rintro ⟨pool, disk⟩ ⟨pool', disk'⟩ ⟨hpool, hd, hclean⟩
    obtain rfl : pool = pool' := hpool.symm
    exact parallel_writeBackFrom hR _ 0 ⟨rfl, hd, hclean⟩
  exact hall.bind fun _ =>
    hR.flush.zoom (fun h => h.disks) fun h hd => ⟨h.pool_eq, hd, h.cleanAt⟩

/-- The same pool before disks that agree does the same. -/
theorem alternates (hR : DisksAgree R)
    (hp : isProtected → ∀ {disk disk'}, R disk disk' → Disk.readOnly disk = true) :
    Alternates (Paired isProtected R) where
  acquire h block := parallel_acquire hR block h
  data_eq {s t} h handle := by
    obtain ⟨pool, disk⟩ := s
    obtain ⟨pool', disk'⟩ := t
    exact congrArg (fun pool : Pool => (pool.checkedOut handle).map (·.data)) h.pool_eq
  update h handle change := parallel_update hR handle change h
  release h handle dirty commit := parallel_release hR hp handle dirty commit h
  markDirty h block := parallel_markDirty hR hp block h
  sync h := parallel_sync hR h

end Pool

end Diskette
