import Diskette.Proofs.Pool.Actions

/-!
# How far a sync gets

A sync writes the changed entries of a pool to the disk, in the order of their slots. It stops at the
first one that the disk refuses: what comes after it is not tried, keeps its mark, and is lost if the
pool ends there. That is so before any disk, whatever the pool holds.

* `changes`: what a sync has to write.
* `sync_stops`: what it has written, and what is left.
-/

namespace Diskette

open Diskette.Action

namespace Disk

variable {δ : Type} [Disk δ]

/-- Writes blocks one after the other and stops at the first failure. -/
def writeEach : List (Nat × Block) → Action δ Unit
  | [] => pure ()
  | (block, data) :: rest => do
    Disk.write block data
    writeEach rest

end Disk

namespace Pool

variable {δ : Type} [Disk δ] {pool pool' : Pool} {slot : Nat}

/-- What has to be written for a slot. -/
def change? (pool : Pool) (slot : Nat) : Option (Nat × Block) :=
  match pool.entries[slot]? with
  | some ⟨some block, data, true, _⟩ => some (block, data)
  | _ => none

/-- What has to be written for `count` slots from number `slot` on. -/
def changesFrom (pool : Pool) (count slot : Nat) : List (Nat × Block) :=
  (List.range' slot count).filterMap pool.change?

/-- What has to be written for all slots, in their order. -/
def changes (pool : Pool) : List (Nat × Block) := pool.changesFrom pool.entries.size 0

theorem changesFrom_succ (count slot : Nat) :
    pool.changesFrom (count + 1) slot =
      (pool.change? slot).toList ++ pool.changesFrom count (slot + 1) := by
  unfold changesFrom
  rw [List.range'_succ, List.filterMap_cons]
  cases pool.change? slot <;> rfl

theorem changesFrom_congr {count : Nat}
    (h : ∀ i, slot ≤ i → pool'.change? i = pool.change? i) :
    pool'.changesFrom count slot = pool.changesFrom count slot :=
  List.filterMap_congr fun i hi => h i (List.mem_range'_1.mp hi).1

/-- Nothing has to be written for a slot that is marked as unchanged. -/
private theorem change?_cleared (i : Nat) :
    (pool.changeEntry slot fun entry => { entry with dirty := false }).change? i =
      if slot = i then none else pool.change? i := by
  unfold change?
  rw [getElem?_entries_changeEntry]
  by_cases hi : slot = i
  · rw [if_pos hi, if_pos hi]
    cases pool.entries[i]? with
    | none => rfl
    | some entry =>
      obtain ⟨block, data, dirty, pins⟩ := entry
      cases block <;> rfl
  · rw [if_neg hi, if_neg hi]

/-- What has to be written for a slot that is written back. -/
theorem writeBack_cases (pool : Pool) (disk : δ) (slot : Nat) :
    (pool.change? slot = none ∧ (writeBack slot).run (pool, disk) = .ok () (pool, disk)) ∨
    ∃ block data, pool.change? slot = some (block, data) ∧
      ((∃ disk', (Disk.write block data).run disk = .ok () disk' ∧
          (writeBack slot).run (pool, disk) =
            .ok () (pool.changeEntry slot fun entry => { entry with dirty := false }, disk')) ∨
        ∃ e disk', (Disk.write block data).run disk = .error e disk' ∧
          (writeBack slot).run (pool, disk) = .error e (pool, disk')) := by
  by_cases hdirty : ∃ block data pins, pool.entries[slot]? = some ⟨some block, data, true, pins⟩
  · obtain ⟨block, data, pins, he⟩ := hdirty
    refine .inr ⟨block, data, by simp only [change?, he], ?_⟩
    unfold EStateM.run writeBack
    cases hw : Disk.write block data disk with
    | ok _ disk' => exact .inl ⟨disk', rfl, by simp only [he, hw]⟩
    | error e disk' => exact .inr ⟨e, disk', rfl, by simp only [he, hw]⟩
  · refine .inl ⟨?_, ?_⟩
    · unfold change?
      split
      · next he => exact absurd ⟨_, _, _, he⟩ hdirty
      · rfl
    · unfold EStateM.run writeBack
      dsimp only
      split
      · next he => exact absurd ⟨_, _, _, he⟩ hdirty
      · rfl

/-- The pool has written the first changes, and has stopped at the first one that the disk refused, if
there is one; it and the ones after it are left. -/
def StopsAt (todo written left : List (Nat × Block)) (disk middle : δ) (r : Except DiskError Unit)
    (disk' : δ) : Prop :=
  todo = written ++ left ∧ (Disk.writeEach written).run disk = .ok () middle ∧
    match left with
    | [] => r = .ok () ∧ disk' = middle
    | (block, data) :: _ => ∃ e, (Disk.write block data).run middle = .error e disk' ∧ r = .error e

private theorem writeBackFrom_stops (count : Nat) :
    ∀ (slot : Nat) (pool : Pool) (disk : δ),
      Ends (writeBackFrom count slot) (pool, disk) fun r s' =>
        s'.1.entries.size = pool.entries.size ∧
        (∀ i, i < slot → s'.1.change? i = pool.change? i) ∧
        ∃ written middle, StopsAt (pool.changesFrom count slot) written (s'.1.changesFrom count slot)
          disk middle r s'.2 := by
  -- The slots in front of `slot` are done with: the claim is that the rest leaves them alone.
  induction count with
  | zero => exact fun slot pool disk => ⟨rfl, fun _ _ => rfl, [], disk, rfl, rfl, rfl, rfl⟩
  | succ count ih =>
    intro slot pool disk
    rw [changesFrom_succ]
    rcases writeBack_cases pool disk slot with ⟨hnone, hrun⟩ | ⟨block, data, hsome, hwrite⟩
    · refine (ends_congr (run_bind_of_ok hrun _)).mpr ?_
      refine (ih (slot + 1) pool disk).mono fun r s' ⟨hsize, hbefore, written, middle, hstops⟩ => ?_
      refine ⟨hsize, fun i hi => hbefore i (by omega), written, middle, ?_⟩
      rw [changesFrom_succ, hbefore slot (Nat.lt_succ_self _), hnone]
      exact hstops
    · rcases hwrite with ⟨disk', hwrite, hrun⟩ | ⟨e, disk', hwrite, hrun⟩
      · refine (ends_congr (run_bind_of_ok hrun _)).mpr ?_
        refine (ih (slot + 1) _ disk').mono fun r s' ⟨hsize, hbefore, written, middle, hstops⟩ => ?_
        refine ⟨hsize.trans Array.size_modify, fun i hi => ?_, (block, data) :: written, middle, ?_⟩
        · rw [hbefore i (by omega), change?_cleared, if_neg (by omega)]
        · obtain ⟨htodo, hwritten, hleft⟩ := hstops
          -- What is cleared is this slot, so the changes that follow are those there were.
          rw [changesFrom_congr fun i hi => (change?_cleared i).trans (if_neg (by omega))] at htodo
          rw [changesFrom_succ, hbefore slot (Nat.lt_succ_self _), change?_cleared, if_pos rfl,
            hsome, htodo]
          exact ⟨rfl, (run_bind_of_ok hwrite _).trans hwritten, hleft⟩
      · refine (ends_of_run_eq_error (run_bind_of_error hrun _)).mpr ?_
        refine ⟨rfl, fun _ _ => rfl, [], disk, ?_⟩
        rw [changesFrom_succ, hsome]
        exact ⟨rfl, rfl, e, hwrite, rfl⟩

/-- A sync writes changes up to the first one that the disk refuses. If it refuses none, the disk is
flushed; else that change and all after it are left as they were. -/
theorem sync_stops (state : Pool × δ) :
    Ends sync state fun r state' => ∃ written left middle,
      state.1.changes = written ++ left ∧ state'.1.changes = left ∧
      (Disk.writeEach written).run state.2 = .ok () middle ∧
      match left with
      | [] => r = (Disk.flush : Action δ Unit).outcome middle ∧
        state'.2 = (Disk.flush : Action δ Unit).stateAfter middle
      | (block, data) :: _ => ∃ e, (Disk.write block data).run middle = .error e state'.2 ∧
        r = .error e := by
  obtain ⟨pool, disk⟩ := state
  -- The flush runs only if nothing is left, which is when the write-back did not fail.
  have hall : Ends writeBackAll (pool, disk) fun r s' => s'.1.entries.size = pool.entries.size ∧
      ∃ written middle, StopsAt pool.changes written s'.1.changes disk middle r s'.2 := by
    have hrun : writeBackAll.run (pool, disk) =
        (writeBackFrom pool.entries.size 0).run (pool, disk) := rfl
    refine (ends_congr hrun).mpr ((writeBackFrom_stops pool.entries.size 0 pool disk).mono
      fun r s' ⟨hsize, _, hstops⟩ => ⟨hsize, ?_⟩)
    rw [changes, changes, hsize]
    exact hstops
  refine hall.bind ?_ ?_
  · rintro ⟨⟩ ⟨pool', disk'⟩ ⟨-, written, middle, htodo, hwritten, hleft⟩
    rw [ends_onSecond, ends_iff]
    cases hchanges : pool'.changes with
    | nil =>
      rw [hchanges] at htodo hleft
      obtain ⟨-, rfl⟩ := hleft
      exact ⟨written, [], disk', htodo, rfl, hwritten, rfl, rfl⟩
    | cons change rest =>
      rw [hchanges] at hleft
      obtain ⟨e, -, hr⟩ := hleft
      cases hr
  · rintro e s' ⟨-, written, middle, htodo, hwritten, hleft⟩
    refine ⟨written, s'.1.changes, middle, htodo, rfl, hwritten, ?_⟩
    cases hchanges : s'.1.changes with
    | nil =>
      rw [hchanges] at hleft
      cases hleft.1
    | cons change rest =>
      rw [hchanges] at hleft
      exact hleft

end Pool

end Diskette
