import Diskette.Proofs.ExactStore
import Diskette.Proofs.Fork.Runs
import Diskette.Proofs.Fork.Steps

/-!
# Writes that are rolled back

What is left of a write that fails, for whatever reason and wherever it stops. The blocks that it
took are free again and no block that was in use has changed. What is not taken back is how far the
search for free blocks has come.

* `FileWrite.of_perform_eq_error`: a write that fails went some steps and released what it took.
* `FileWrite.rolledBack`: the same blocks are free, and those in use read as before.
* `FileWrite.unnoticed_iff`: whether the bitmap tells of the write.
-/

namespace Diskette

open Diskette.Action

variable {κ : Type} [BlockStore κ] {Holds : κ → (Nat → Block) → Prop} {c : Nat → Block}
  {store : κ} {bitmap : Bitmap} {after : κ × Bitmap} {write : FileWrite} {e : DiskError}

namespace FileWrite

/-- What a write does before it is kept or rolled back. -/
def draft : FileWrite → Action (Draft κ) Descriptor
  | plain data => Draft.writePlain data
  | extended data resource => Draft.writeBoth data resource

theorem perform_eq (write : FileWrite) :
    (write.perform : Action (κ × Bitmap) Descriptor) = Draft.commit write.draft := by
  cases write <;> rfl

theorem steps_draft (write : FileWrite) (start : Draft κ) :
    Ends write.draft start fun _ draft => start.Steps draft := by
  cases write with
  | plain data => exact Draft.steps_writePlain data start
  | extended data resource => exact Draft.steps_writeBoth data resource start

/-- The blocks that a write takes, the last one first. -/
def taken (write : FileWrite) (store : κ) (bitmap : Bitmap) : List Nat :=
  (write.draft.stateAfter ⟨store, bitmap, []⟩).taken

/-- A write that fails goes some steps, and then releases what it took. -/
theorem of_perform_eq_error (h : write.perform.run (store, bitmap) = .error e after) :
    ∃ draft : Draft κ, Draft.Steps ⟨store, bitmap, []⟩ draft ∧
      draft.taken = write.taken store bitmap ∧
      after = (draft.store, Bitmap.releaseAll draft.taken draft.bitmap) := by
  rw [perform_eq] at h
  obtain ⟨draft, hrun, hafter⟩ := Draft.of_commit_eq_error h
  refine ⟨draft, (write.steps_draft _).of_error hrun, ?_, hafter⟩
  rw [taken, stateAfter, hrun]

/-- What a write that fails does to the bitmap. -/
theorem bitmap_of_perform_eq_error (h : write.perform.run (store, bitmap) = .error e after) :
    ∃ draft : Draft κ, bitmap.Took (write.taken store bitmap) draft.bitmap ∧
      after.2 = Bitmap.releaseAll (write.taken store bitmap) draft.bitmap ∧
      after.2.cursor =
        ((write.taken store bitmap).head?.map (· / 8)).getD bitmap.cursor := by
  obtain ⟨draft, hsteps, htaken, rfl⟩ := of_perform_eq_error h
  obtain ⟨new, hnew, htook, hcursor⟩ := hsteps.exists_took
  obtain rfl : write.taken store bitmap = new := by rw [← htaken, hnew, List.append_nil]
  exact ⟨draft, htook, by rw [htaken], (Bitmap.cursor_releaseAll ..).trans hcursor⟩

end FileWrite

/-! ## What is as before -/

/-- What a write that failed leaves of a store that stood for the array `c` and of a bitmap. -/
structure RolledBack (Holds : κ → (Nat → Block) → Prop) (c : Nat → Block) (bitmap : Bitmap)
    (after : κ × Bitmap) : Prop where
  blocks_eq : after.2.blocks = bitmap.blocks
  /-- The same blocks are free. -/
  isFree_eq (block : Nat) : after.2.isFree block = bitmap.isFree block
  /-- As many blocks are free. -/
  freeBlocks_eq : after.2.freeBlocks = bitmap.freeBlocks
  /-- It is the same for the packed form. -/
  packed {blocks : Nat} {packed : Bitmap.Packed} {stock : Bitmap.Stock}
    (h : Bitmap.Run blocks packed bitmap stock) :
    ∃ packed' stock', Bitmap.Run blocks packed' after.2 stock' ∧ packed'.free = packed.free ∧
      ∀ block, packed'.isFree block = packed.isFree block
  /-- The store stands for an array in which the blocks in use are as in `c`. -/
  contents : ∃ c', Holds after.1 c' ∧ ∀ block, bitmap.isFree block = false → c' block = c block
  /-- A block in use that can be read is as in `c`. -/
  read_eq {block : Nat} {data : Block} (hused : bitmap.isFree block = false)
    (h : (BlockStore.readBlock block).outcome after.1 = .ok data) : data = c block

/-- A write that fails is rolled back, whatever made it fail. -/
theorem FileWrite.rolledBack (hF : Faithful BlockStore.readBlock BlockStore.writeBlock Holds)
    (hc : Holds store c) (h : write.perform.run (store, bitmap) = .error e after) :
    RolledBack Holds c bitmap after := by
  obtain ⟨draft, hsteps, -, rfl⟩ := of_perform_eq_error h
  obtain ⟨taken, htaken, htook, -⟩ := hsteps.exists_took
  obtain ⟨demands, hdemands⟩ := hsteps.exists_demands
  obtain ⟨c', hc', hsame⟩ := hsteps.exists_contents hF hc
  rw [List.append_nil] at htaken
  have halike : bitmap.Alike (Bitmap.releaseAll draft.taken draft.bitmap) := htaken ▸ htook.releaseAll
  have hfree : (Bitmap.releaseAll draft.taken draft.bitmap).freeBlocks = bitmap.freeBlocks := by
    simp only [Bitmap.freeBlocks_eq_card, halike.blocks_eq, halike.isFree_eq]
  -- A block that was taken was free, so none of those in use has changed.
  have hused {block : Nat} (hb : bitmap.isFree block = false) : c' block = c block := by
    refine hsame block fun hmem => ?_
    rw [htook.free (htaken ▸ hmem)] at hb
    cases hb
  refine ⟨halike.blocks_eq, halike.isFree_eq, hfree, fun {blocks packed stock} hrun => ?_,
    ⟨c', hc', fun _ => hused⟩, fun hb hread => ?_⟩
  · obtain ⟨packed', stock', hrun'⟩ := hrun.exists_serveAll (demands ++ draft.taken.map .release)
    rw [Bitmap.serveAll_append, Bitmap.serveAll_release, ← hdemands] at hrun'
    refine ⟨packed', stock', hrun', ?_, fun block => ?_⟩
    · rw [hrun.free_eq, hrun'.free_eq, hfree]
    · rw [hrun.isFree_eq, hrun'.isFree_eq, halike.isFree_eq]
  · rw [(ends_iff.mp (hF.read_ends hc' _)).2 _ hread, hused hb]

/-- An extended file has no room on a device of three blocks. The volume seems to have five, so the
resource fork is put into block 3, after block 2 has been written. -/
theorem FileWrite.rolledBack_memory :
    let bitmap := Bitmap.serveAll [.one 0] (Bitmap.freshly 5)
    let write : FileWrite := .extended ⟨#[1]⟩ ⟨#[2, 3]⟩
    ∃ after, write.perform.run (Memory.zeros 3, bitmap) = .error (.blockOutOfRange 3 3) after ∧
      RolledBack (fun (memory : Memory) c => memory.size = 3 ∧ memory.blocks = c)
        (fun _ => Bytes.zero 512) bitmap after := by
  intro bitmap write
  have hw : write.perform.run (Memory.zeros 3, bitmap) = .error (.blockOutOfRange 3 3) _ :=
    run_eq_error_of_outcome (by decide +kernel)
  have hc : (Memory.zeros 3).size = 3 ∧ (Memory.zeros 3).blocks = fun _ => Bytes.zero 512 := ⟨rfl, rfl⟩
  exact ⟨_, hw, rolledBack (Memory.exactStore 3).toFaithful hc hw⟩

/-! ## What is not -/

/-- What is left of a write that failed is where the next search starts: in the group of eight blocks
in which the last block was found. Whoever sees the answers of the bitmap can tell that there was a
write, unless that is the group in which the search would have started anyway. -/
theorem FileWrite.unnoticed_iff {blocks : Nat} {packed : Bitmap.Packed} {stock : Bitmap.Stock}
    (hrun : Bitmap.Run blocks packed bitmap stock)
    (h : write.perform.run (store, bitmap) = .error e after) :
    after.2 = ⟨bitmap.bits,
        ((write.taken store bitmap).head?.map (· / 8)).getD bitmap.cursor⟩ ∧
      (bitmap.SameAnswers after.2 ↔
        ∀ block ∈ (write.taken store bitmap).head?, block / 8 = bitmap.cursor) := by
  obtain ⟨draft, htook, hafter, hcursor⟩ := bitmap_of_perform_eq_error h
  have halike : bitmap.Alike after.2 := hafter ▸ htook.releaseAll
  refine ⟨by rw [← halike.bits_eq, ← hcursor], ?_⟩
  cases hlast : (write.taken store bitmap).head? with
  | none =>
    rw [hlast] at hcursor
    obtain hsame : after.2 = bitmap := halike.eq_of_cursor hcursor
    rw [hsame]
    exact iff_of_true (fun _ => ⟨fun _ => rfl, fun _ => rfl⟩) nofun
  | some last =>
    rw [hlast] at hcursor
    obtain hcursor : after.2.cursor = last / 8 := hcursor
    have hlt := Bitmap.lt_of_isFree (htook.free (List.mem_of_mem_head? hlast))
    have hpos : 0 < blocks := hrun.tracks.2.2.blocks_eq ▸ Nat.zero_lt_of_lt hlt
    have hbefore : bitmap.cursor * 8 < bitmap.blocks :=
      hrun.tracks.2.2.blocks_eq ▸ hrun.cursor_lt hpos
    have hend : after.2.cursor * 8 < bitmap.blocks :=
      hcursor ▸ (Nat.div_mul_le_self last 8).trans_lt hlt
    rw [halike.sameAnswers_iff hbefore hend, hcursor]
    simp

/-- Of nine blocks 1 and 8 are free. A file that takes both and needs another one is not written, and
the next block that is handed out is 8 then, not 1. -/
theorem FileWrite.unnoticed_iff_nine :
    let bitmap := Bitmap.serveAll ([0, 2, 3, 4, 5, 6, 7].map .one) (Bitmap.freshly 9)
    let write : FileWrite := .extended ⟨#[1]⟩ ⟨#[2]⟩
    ∃ after, write.perform.run (Memory.zeros 9, bitmap) = .error .diskFull after ∧
      bitmap.alloc.1 = some 1 ∧ after.2.alloc.1 = some 8 ∧ ¬ bitmap.SameAnswers after.2 := by
  intro bitmap write
  have hw : write.perform.run (Memory.zeros 9, bitmap) = .error .diskFull _ :=
    run_eq_error_of_outcome (by decide +kernel)
  have hstart : Bitmap.Run 9 (.freshly 9) (.freshly 9) (.full 9) := .freshly
  obtain ⟨packed, stock, hrun⟩ := hstart.exists_serveAll ([0, 2, 3, 4, 5, 6, 7].map .one)
  obtain ⟨hafter, hsame⟩ := unnoticed_iff hrun hw
  have htaken : write.taken (Memory.zeros 9) bitmap = [8, 1] := by decide +kernel
  refine ⟨_, hw, by decide, ?_, fun h => ?_⟩
  · rw [hafter, htaken]
    decide
  · have hlast := hsame.mp h 8 (by rw [htaken]; rfl)
    revert hlast
    decide

end Diskette
