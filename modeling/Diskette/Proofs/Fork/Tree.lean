import Diskette.Fork.Reading
import Mathlib.Data.List.Basic

/-!
# Index trees in an array of blocks

What an index tree stands for when the blocks of a store are those of an array: the data blocks
under a root, and the blocks that the tree takes. Both depend on nothing but the blocks that the
tree takes.

* `leaf`, `blocks`: data block number `k` under a root, and all blocks under it.
* `leaf_congr`, `blocks_congr`: two arrays that agree on the blocks of a tree have the same tree.
-/

namespace Diskette

theorem spanOf_pos (level : Nat) : 0 < spanOf level := by
  induction level with
  | zero => exact Nat.one_pos
  | succ level ih =>
    rw [spanOf]
    omega

@[simp] theorem Node.pointer_zero (i : Nat) : Node.pointer (Bytes.zero 512) i = 0 := by
  simp [Node.pointer]

namespace Tree

variable {c c' : Nat → Block}

/-- The block that a pointer stands for; a hole stands for zeros. -/
def target (c : Nat → Block) (root : Nat) : Block := if root = 0 then Bytes.zero 512 else c root

/-- Data block number `k` under a root with `level` levels of nodes. -/
def leaf (c : Nat → Block) : (level root k : Nat) → Block
  | 0, root, _ => target c root
  | level + 1, root, k =>
    leaf c level (Node.pointer (target c root) (k / spanOf level)) (k % spanOf level)

/-- The blocks under a root with `level` levels of nodes, those under a node before the node. -/
def blocks (c : Nat → Block) : (level root : Nat) → List Nat
  | 0, root => if root = 0 then [] else [root]
  | level + 1, root =>
    if root = 0 then []
    else ((List.range 256).flatMap fun i => blocks c level (Node.pointer (c root) i)) ++ [root]

/-! ## Holes -/

@[simp] theorem target_zero : target c 0 = Bytes.zero 512 := rfl

theorem target_of_ne {root : Nat} (h : root ≠ 0) : target c root = c root := if_neg h

@[simp] theorem blocks_hole (level : Nat) : blocks c level 0 = [] := by
  cases level <;> rfl

@[simp] theorem leaf_hole (level k : Nat) : leaf c level 0 k = Bytes.zero 512 := by
  induction level generalizing k with
  | zero => rfl
  | succ level ih => rw [leaf, target_zero, Node.pointer_zero, ih]

theorem mem_blocks_root {level root : Nat} (h : root ≠ 0) : root ∈ blocks c level root := by
  cases level <;> simp [blocks, h]

/-- The blocks under a node are under its root. -/
theorem blocks_child_subset {level root i : Nat} (hi : i < 256) :
    blocks c level (Node.pointer (target c root) i) ⊆ blocks c (level + 1) root := by
  by_cases hroot : root = 0
  · simp [hroot]
  · intro block hb
    rw [target_of_ne hroot] at hb
    rw [blocks, if_neg hroot]
    exact List.mem_append_left _ (List.mem_flatMap.mpr ⟨i, List.mem_range.mpr hi, hb⟩)

/-! ## What a tree depends on -/

theorem target_congr {level root : Nat} (h : ∀ block ∈ blocks c level root, c' block = c block) :
    target c' root = target c root := by
  by_cases hroot : root = 0
  · simp [hroot]
  · rw [target_of_ne hroot, target_of_ne hroot, h root (mem_blocks_root hroot)]

theorem leaf_congr {level root k : Nat} (hk : k < spanOf level)
    (h : ∀ block ∈ blocks c level root, c' block = c block) :
    leaf c' level root k = leaf c level root k := by
  induction level generalizing root k with
  | zero => exact target_congr h
  | succ level ih =>
    have hchild : k / spanOf level < 256 := Nat.div_lt_of_lt_mul (by rwa [Nat.mul_comm])
    rw [leaf, leaf, target_congr h]
    exact ih (Nat.mod_lt _ (spanOf_pos level)) fun block hb => h block (blocks_child_subset hchild hb)

theorem blocks_congr {level root : Nat} (h : ∀ block ∈ blocks c level root, c' block = c block) :
    blocks c' level root = blocks c level root := by
  induction level generalizing root with
  | zero => rfl
  | succ level ih =>
    by_cases hroot : root = 0
    · simp [hroot]
    · rw [blocks, blocks, if_neg hroot, if_neg hroot, h root (mem_blocks_root hroot)]
      congr 1
      refine List.flatMap_congr fun i hi => ih fun block hb => h block ?_
      have hsub : blocks c level (Node.pointer (target c root) i) ⊆ blocks c (level + 1) root :=
        blocks_child_subset (List.mem_range.mp hi)
      rw [target_of_ne hroot] at hsub
      exact hsub hb

end Tree

end Diskette
