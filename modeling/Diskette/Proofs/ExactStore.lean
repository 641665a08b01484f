import Diskette.Proofs.BlockArray
import Diskette.Proofs.Fork.Parallel

/-!
# Stores that fail only where they have to

Reading a block of such a store fails only if there is no such block, and replacing one only if
there is none or the store is protected. That leaves nothing open: two such stores that show the
same array cannot be told apart, whatever they are made of.

* `ExactStore.arrayStore`: such a store is an array of blocks.
* `ExactStore.storesAgree`: two of them that show the same agree.
* `Memory.exactStore`: blocks in memory are the plainest of them.
-/

namespace Diskette

open Diskette.Action

/-- A store that behaves as an array of `size` blocks, and what comes of each access. -/
structure ExactStore {κ : Type} [BlockStore κ] (size : Nat) (readOnly : Bool)
    (Holds : κ → (Nat → Block) → Prop) : Prop
    extends Faithful BlockStore.readBlock BlockStore.writeBlock Holds where
  read_outcome {s : κ} {c : Nat → Block} (h : Holds s c) (block : Nat) :
    (BlockStore.readBlock block).outcome s =
      if block < size then .ok (c block) else .error (.blockOutOfRange block size)
  write_outcome {s : κ} {c : Nat → Block} (h : Holds s c) (block : Nat) (data : Block) :
    (BlockStore.writeBlock block data).outcome s =
      if block < size then if readOnly then .error .readOnly else .ok ()
      else .error (.blockOutOfRange block size)

namespace ExactStore

variable {κ κ' : Type} [BlockStore κ] [BlockStore κ'] {size : Nat} {readOnly : Bool}
  {Holds : κ → (Nat → Block) → Prop} {Holds' : κ' → (Nat → Block) → Prop}

theorem arrayStore (hS : ExactStore size readOnly Holds) : ArrayStore size Holds where
  toFaithful := hS.toFaithful
  read_ok {s c block} h hb :=
    ⟨_, run_eq_ok_of_outcome ((hS.read_outcome h block).trans (if_pos hb))⟩
  lt_of_read {s s' c block data} h hr := by
    by_contra hb
    have houtcome := outcome_of_run_eq_ok hr
    rw [hS.read_outcome h, if_neg hb] at houtcome
    cases houtcome
  lt_of_write {s s' c block data} h hw := by
    by_contra hb
    have houtcome := outcome_of_run_eq_ok hw
    rw [hS.write_outcome h, if_neg hb] at houtcome
    cases houtcome

/-- Stores that show the same array agree. -/
theorem storesAgree (hS : ExactStore size readOnly Holds) (hS' : ExactStore size readOnly Holds') :
    StoresAgree fun s t => ∃ c, Holds s c ∧ Holds' t c where
  readBlock block := by
    rintro s t ⟨c, hs, ht⟩
    have houtcome := (hS'.read_outcome ht block).trans (hS.read_outcome hs block).symm
    exact agree_iff.mpr ⟨houtcome, c, (ends_iff.mp (hS.read_ends hs block)).1,
      (ends_iff.mp (hS'.read_ends ht block)).1⟩
  writeBlock block data := by
    rintro s t ⟨c, hs, ht⟩
    have houtcome := (hS'.write_outcome ht block data).trans (hS.write_outcome hs block data).symm
    have hleft := ends_iff.mp (hS.write_ends hs block data)
    have hright := ends_iff.mp (hS'.write_ends ht block data)
    refine agree_iff.mpr ⟨houtcome, ?_⟩
    rw [houtcome] at hright
    cases hr : (BlockStore.writeBlock block data).outcome s with
    | ok =>
      rw [hr] at hleft hright
      exact ⟨_, hleft, hright⟩
    | error =>
      rw [hr] at hleft hright
      exact ⟨c, hleft, hright⟩

end ExactStore

/-! ## Blocks in memory -/

namespace Memory

instance : BlockStore Memory where
  readBlock := Disk.read
  writeBlock := Disk.write

/-- Blocks of zeros. -/
def zeros (blocks : Nat) : Memory := ⟨blocks, fun _ => Bytes.zero 512⟩

/-- No other block can be read or replaced. -/
private theorem refuses {memory : Memory} {block : Nat} (hb : ¬ block < memory.size)
    (data : Block) :
    (Disk.read block).outcome memory = .error (.blockOutOfRange block memory.size) ∧
      (Disk.write block data).outcome memory = .error (.blockOutOfRange block memory.size) := by
  have hcheck : checkBlock block memory.size = .error (.blockOutOfRange block memory.size) :=
    if_neg hb
  have hread : Ends (Disk.read block) memory fun r _ =>
      r = .error (.blockOutOfRange block memory.size) := by
    refine ends_ask.mpr ?_
    rw [hcheck]
    rfl
  have hwrite : Ends (Disk.write block data) memory fun r _ =>
      r = .error (.blockOutOfRange block memory.size) := by
    refine ends_bind.mpr (ends_ask.mpr ?_)
    rw [hcheck]
  exact ⟨ends_iff.mp hread, ends_iff.mp hwrite⟩

theorem exactStore (n : Nat) :
    ExactStore n false fun (memory : Memory) c => memory.size = n ∧ memory.blocks = c where
  toFaithful := ⟨(arrayDisk n).read_ends, (arrayDisk n).write_ends⟩
  read_outcome {memory c} h block := by
    split
    · next hb =>
      obtain ⟨_, hrun⟩ := (arrayDisk n).read_ok h hb
      exact outcome_of_run_eq_ok hrun
    · next hb =>
      obtain ⟨rfl, rfl⟩ := h
      exact (refuses hb (memory.blocks block)).1
  write_outcome {memory c} h block data := by
    split
    · next hb =>
      obtain ⟨_, hrun⟩ := (arrayDisk n).write_ok h hb rfl
      exact outcome_of_run_eq_ok hrun
    · next hb =>
      obtain ⟨rfl, rfl⟩ := h
      exact (refuses hb data).2

end Memory

end Diskette
