import Diskette.Disk
import Diskette.Proofs.Ends
import Mathlib.Logic.Function.Basic

/-!
# Arrays of blocks

What it means that something with numbered blocks behaves as an array of independent blocks. A
relation `Holds s c` says that the state `s` stands for the array `c`.

* `Faithful`: whatever is read is in the array, a write changes one place of it, and what fails
  changes nothing. Any access may fail.
* `ArrayStore`: a store that behaves so, and of which exactly the blocks below some number can be
  read.
* `FaithfulDisk`: a disk that behaves so, whose size and write protection stay as they are.
* `ArrayDisk`: a faithful disk of which every block can be read, and written unless it is protected.
* `Memory.arrayDisk`: blocks in memory are such a disk.
-/

namespace Diskette

open Diskette.Action

section

variable {σ : Type} (read : (block : Nat) → Action σ Block)
  (write : (block : Nat) → (data : Block) → Action σ Unit) (Holds : σ → (Nat → Block) → Prop)

/-- What succeeds agrees with the array, and what fails leaves it alone. -/
structure Faithful : Prop where
  read_ends {s : σ} {c : Nat → Block} (h : Holds s c) (block : Nat) :
    Ends (read block) s fun r s' => Holds s' c ∧ ∀ data, r = .ok data → data = c block
  write_ends {s : σ} {c : Nat → Block} (h : Holds s c) (block : Nat) (data : Block) :
    Ends (write block data) s fun r s' =>
      match r with
      | .ok _ => Holds s' (Function.update c block data)
      | .error _ => Holds s' c

end

/-- A store that behaves as an array of `size` blocks, all of which can be read. -/
structure ArrayStore {κ : Type} [BlockStore κ] (size : Nat) (Holds : κ → (Nat → Block) → Prop) : Prop
    extends Faithful BlockStore.readBlock BlockStore.writeBlock Holds where
  read_ok {s : κ} {c : Nat → Block} {block : Nat} (h : Holds s c) (hb : block < size) :
    ∃ s', (BlockStore.readBlock block).run s = .ok (c block) s'
  lt_of_read {s s' : κ} {c : Nat → Block} {block : Nat} {data : Block} (h : Holds s c)
    (hr : (BlockStore.readBlock block).run s = .ok data s') : block < size
  lt_of_write {s s' : κ} {c : Nat → Block} {block : Nat} {data : Block} (h : Holds s c)
    (hw : (BlockStore.writeBlock block data).run s = .ok () s') : block < size

/-- A disk whose accesses, those that succeed, agree with an array. A flush leaves the array
alone. -/
structure FaithfulDisk {δ : Type} [Disk δ] (size : Nat) (readOnly : Bool)
    (Holds : δ → (Nat → Block) → Prop) : Prop extends Faithful Disk.read Disk.write Holds where
  blocks_eq {disk : δ} {c : Nat → Block} (h : Holds disk c) : Disk.blocks disk = size
  readOnly_eq {disk : δ} {c : Nat → Block} (h : Holds disk c) : Disk.readOnly disk = readOnly
  flush_ends {disk : δ} {c : Nat → Block} (h : Holds disk c) :
    Ends Disk.flush disk fun _ disk' => Holds disk' c

/-- A disk that behaves as an array of `size` blocks. -/
structure ArrayDisk {δ : Type} [Disk δ] (size : Nat) (readOnly : Bool)
    (Holds : δ → (Nat → Block) → Prop) : Prop extends FaithfulDisk size readOnly Holds where
  read_ok {disk : δ} {c : Nat → Block} {block : Nat} (h : Holds disk c) (hb : block < size) :
    ∃ disk', (Disk.read block).run disk = .ok (c block) disk'
  write_ok {disk : δ} {c : Nat → Block} {block : Nat} {data : Block} (h : Holds disk c)
    (hb : block < size) (hw : readOnly = false) :
    ∃ disk', (Disk.write block data).run disk = .ok () disk'

/-! ## Blocks in memory -/

/-- Blocks in memory, and how many of them there are. -/
structure Memory where
  size : Nat
  blocks : Nat → Block

instance : Disk Memory where
  blocks memory := memory.size
  readOnly _ := false
  read block := Action.ask fun memory =>
    (checkBlock block memory.size).map fun _ => memory.blocks block
  write block data := do
    Action.ask fun memory => checkBlock block memory.size
    modify fun memory => { memory with blocks := Function.update memory.blocks block data }
  flush := pure ()

theorem Memory.arrayDisk (n : Nat) :
    ArrayDisk n false fun (memory : Memory) c => memory.size = n ∧ memory.blocks = c where
  read_ends {memory} {c} h block := by
    obtain ⟨rfl, rfl⟩ := h
    refine ends_ask.mpr ⟨⟨rfl, rfl⟩, fun data hr => ?_⟩
    unfold checkBlock at hr
    split at hr
    · exact (Except.ok.inj hr).symm
    · cases hr
  write_ends {memory} {c} h block data := by
    obtain ⟨rfl, rfl⟩ := h
    refine ends_bind.mpr (ends_ask.mpr ?_)
    cases checkBlock block memory.size with
    | ok _ => exact ⟨rfl, rfl⟩
    | error _ => exact ⟨rfl, rfl⟩
  blocks_eq h := h.1
  readOnly_eq _ := rfl
  flush_ends h := h
  read_ok {memory} {c} {block} h hb := by
    obtain ⟨rfl, rfl⟩ := h
    refine ⟨memory, run_ask_of_ok ?_⟩
    rw [checkBlock_eq_ok_iff.mpr hb]
    rfl
  write_ok {memory} {c} {block} {data} h hb _ := by
    obtain ⟨rfl, rfl⟩ := h
    have hcheck : (Action.ask fun (memory : Memory) => checkBlock block memory.size).run memory =
        .ok () memory := run_ask_of_ok (checkBlock_eq_ok_iff.mpr hb)
    exact ⟨_, run_bind_of_ok hcheck _⟩

end Diskette
