import Diskette.Proofs.Fork.Files
import Diskette.Proofs.Pool.Store

/-!
# What is written is read back

* `readFork_of_write`: the forks of a file that was just written read the data that was written,
  whatever its length and wherever it has blocks of zeros.
-/

namespace Diskette

open Diskette.Action

variable {κ : Type} [BlockStore κ] {n : Nat} {Holds : κ → (Nat → Block) → Prop}
  {c : Nat → Block} {before : Bitmap} {contents : Fork → Except DiskError ByteArray}
  {write : Action (κ × Bitmap) Descriptor} {s after : κ × Bitmap} {descriptor : Descriptor}

private theorem readFork_of_adds (hS : ArrayStore n Holds)
    (h : Ends write s (Adds n Holds c before contents)) (hw : write.run s = .ok descriptor after)
    (fork : Fork) : (readFork descriptor fork).outcome after.1 = contents fork := by
  obtain ⟨c', hholds, hadded⟩ := h.of_ok hw
  exact (ends_iff.mp (hadded.stored.readFork_ends hS hholds fork)).2

/-- The forks of a file that was just written read what was written. -/
theorem readFork_of_write (hS : ArrayStore n Holds) {store : κ} {bitmap : Bitmap}
    (h : Holds store c) (h0 : bitmap.isFree 0 = false) :
    (∀ data descriptor after, (writeFork data).run (store, bitmap) = .ok descriptor after →
      (readFork descriptor .data).outcome after.1 = .ok data) ∧
    (∀ data resource descriptor after,
      (writeExtended data resource).run (store, bitmap) = .ok descriptor after →
        (readFork descriptor .data).outcome after.1 = .ok data ∧
        (readFork descriptor .resource).outcome after.1 = .ok resource) := by
  refine ⟨fun data descriptor after hw => ?_, fun data resource descriptor after hw => ?_⟩
  · exact readFork_of_adds hS (writeFork_ends hS h h0 data) hw .data
  · have hread := readFork_of_adds hS (writeExtended_ends hS h h0 data resource) hw
    exact ⟨hread .data, hread .resource⟩

/-- An extended file, in four blocks behind a pool of two buffers. -/
theorem readFork_of_write_memory :
    let store : Pool × Memory := (Pool.ofSize 2, ⟨4, fun _ => Bytes.zero 512⟩)
    let bitmap : Bitmap := ⟨#[false, true, true, true], 0⟩
    bitmap.isFree 0 = false ∧ ∃ after,
      (writeExtended ⟨#[1]⟩ ⟨#[2, 3]⟩).run (store, bitmap) = .ok ⟨.extended, 1, 3, 512⟩ after ∧
      (readFork ⟨.extended, 1, 3, 512⟩ .data).outcome after.1 = .ok ⟨#[1]⟩ ∧
      (readFork ⟨.extended, 1, 3, 512⟩ .resource).outcome after.1 = .ok ⟨#[2, 3]⟩ := by
  intro store bitmap
  have h0 : bitmap.isFree 0 = false := rfl
  have hw : (writeExtended ⟨#[1]⟩ ⟨#[2, 3]⟩).run (store, bitmap) =
      .ok ⟨.extended, 1, 3, 512⟩ _ := run_eq_ok_of_outcome (by decide +kernel)
  have hS := Pool.arrayStore (Memory.arrayDisk 4)
  exact ⟨h0, _, hw, (readFork_of_write hS (Pool.shows_ofSize ⟨rfl, rfl⟩ 2) h0).2 _ _ _ _ hw⟩

end Diskette
