import Diskette.Proofs.Fork.Files

/-!
# Files are freed as they were written

Freeing a file walks down the trees of its forks and releases the blocks that the file takes, each
of them and no other. It never fails when the blocks can be read.

* `freeSubtree_ends`: a tree.
* `freeFork_ends`: a file.
-/

namespace Diskette

open Diskette.Action

variable {κ : Type} [BlockStore κ] {n : Nat} {Holds : κ → (Nat → Block) → Prop}
  {c : Nat → Block} {bitmap : Bitmap} {descriptor plain : Descriptor}
  {contents : Fork → Except DiskError ByteArray} {fork : Fork} {s : κ}

omit [BlockStore κ] in
/-- The blocks of `freed` were released, and nothing was changed in the store. -/
structure Freed (Holds : κ → (Nat → Block) → Prop) (c : Nat → Block) (before : Bitmap)
    (freed : List Nat) (r : Except DiskError Unit) (after : κ × Bitmap) : Prop where
  holds : Holds after.1 c
  ok : r = .ok ()
  bitmap_eq : after.2 = before.releaseAll freed

/-! ## Trees -/

omit [BlockStore κ] in
private theorem freeChildren_ends {child : (root : Nat) → Action (κ × Bitmap) Unit} {level : Nat}
    {node : Block}
    (hchild : ∀ {s : κ} {bitmap : Bitmap} {root : Nat}, Holds s c →
      (∀ block ∈ Tree.blocks c level root, block < n) →
      Ends (child root) (s, bitmap) (Freed Holds c bitmap (Tree.blocks c level root)))
    (count : Nat) :
    ∀ {s : κ} {bitmap : Bitmap} {index : Nat}, Holds s c →
      (∀ i, i < index + count → ∀ block ∈ Tree.blocks c level (Node.pointer node i), block < n) →
      Ends (freeChildren child node count index) (s, bitmap) (Freed Holds c bitmap
        ((List.range' index count).flatMap fun i => Tree.blocks c level (Node.pointer node i))) := by
  induction count with
  | zero => exact fun h _ => ⟨h, rfl, rfl⟩
  | succ count ih =>
    intro s bitmap index h hbound
    refine (hchild h (hbound index (by omega))).bind ?_ fun e s' hf => by cases hf.ok
    rintro ⟨⟩ ⟨s', bitmap'⟩ hf
    refine (ih hf.holds fun i hi => hbound i (by omega)).mono ?_
    rintro r s'' hf'
    refine ⟨hf'.holds, hf'.ok, ?_⟩
    rw [hf'.bitmap_eq, List.range'_succ, List.flatMap_cons, Bitmap.releaseAll_append,
      ← hf.bitmap_eq]

/-- The blocks of a tree are released. -/
theorem freeSubtree_ends (hS : ArrayStore n Holds) {level : Nat} :
    ∀ {s : κ} {bitmap : Bitmap} {root : Nat}, Holds s c →
      (∀ block ∈ Tree.blocks c level root, block < n) →
      Ends (freeSubtree level root) (s, bitmap)
        (Freed Holds c bitmap (Tree.blocks c level root)) := by
  induction level with
  | zero =>
    intro s bitmap root h _
    unfold freeSubtree Tree.blocks
    split
    · exact ⟨h, rfl, rfl⟩
    · exact ⟨h, rfl, rfl⟩
  | succ level ih =>
    intro s bitmap root h hbound
    unfold freeSubtree
    by_cases hroot : root = 0
    · rw [if_pos hroot, hroot, Tree.blocks_hole]
      exact ⟨h, rfl, rfl⟩
    · obtain ⟨s', hrun⟩ := hS.read_ok h (hbound root (Tree.mem_blocks_root hroot))
      have h' := ((hS.read_ends h root).of_ok hrun).1
      have hchildren {i : Nat} (hi : i < 256) :
          Tree.blocks c level (Node.pointer (c root) i) ⊆ Tree.blocks c (level + 1) root := by
        have hsub : Tree.blocks c level (Node.pointer (Tree.target c root) i) ⊆
            Tree.blocks c (level + 1) root := Tree.blocks_child_subset hi
        rwa [Tree.target_of_ne hroot] at hsub
      rw [if_neg hroot, ends_bind, ends_onFirst, ends_of_run_eq_ok hrun]
      dsimp only
      -- The node was read before any block was released, and its pointers are those of the tree.
      have hbound' : ∀ i, i < 0 + 256 →
          ∀ block ∈ Tree.blocks c level (Node.pointer (c root) i), block < n := fun i hi block hb =>
        hbound block (hchildren (by omega) hb)
      refine (freeChildren_ends ih 256 h' hbound').bind ?_ fun e s' hf => by cases hf.ok
      rintro ⟨⟩ ⟨s'', bitmap'⟩ hf
      refine ⟨hf.holds, rfl, ?_⟩
      have hbitmap : bitmap' = bitmap.releaseAll _ := hf.bitmap_eq
      rw [Tree.blocks, if_neg hroot, Bitmap.releaseAll_append, List.range_eq_range', ← hbitmap]
      rfl

/-! ## Files -/

private theorem freePlain_ends (hS : ArrayStore n Holds) {levels : Nat} {data : ByteArray}
    (h : Keeps n c levels plain data) (hs : Holds s c) :
    Ends (freePlain plain) (s, bitmap) (Freed Holds c bitmap (plain.plainBlocks c)) := by
  unfold freePlain
  rw [h.levels_eq, h.plainBlocks_eq]
  exact freeSubtree_ends hS hs h.lt_size

/-- A fork of an extended file is found. -/
private theorem normalizeFork_ends (hS : ArrayStore n Holds) (h : Stored n c descriptor contents)
    (hs : Holds s c) (fork : Fork) :
    Ends (Action.onFirst (normalize descriptor fork)) (s, bitmap) fun r after =>
      Holds after.1 c ∧ after.2 = bitmap ∧ r = descriptor.fork? c fork := by
  rw [ends_onFirst]
  exact (normalize_ends hS hs h.key_lt fork).mono fun _ _ hr => ⟨hr.1, rfl, hr.2⟩

/-- The blocks of a file are released. -/
theorem freeFork_ends (hS : ArrayStore n Holds) (h : Stored n c descriptor contents)
    (hs : Holds s c) :
    Ends (freeFork descriptor) (s, bitmap) (Freed Holds c bitmap (descriptor.blocks c)) := by
  by_cases he : descriptor.storageType = .extended
  · obtain ⟨dataFork, hdf⟩ := h.exists_fork he .data
    obtain ⟨resourceFork, hrf⟩ := h.exists_fork he .resource
    obtain ⟨dataLevels, _, -, hdk⟩ := h.ok hdf
    obtain ⟨resourceLevels, _, -, hrk⟩ := h.ok hrf
    have hdb : descriptor.forkBlocks c .data = dataFork.plainBlocks c := by
      rw [Descriptor.forkBlocks, hdf]
    have hrb : descriptor.forkBlocks c .resource = resourceFork.plainBlocks c := by
      rw [Descriptor.forkBlocks, hrf]
    rw [Descriptor.blocks_extended he, hdb, hrb]
    unfold freeFork
    rw [he]
    simp only [StorageType.levels?]
    refine (normalizeFork_ends hS h hs .data).bind ?_ fun e after hr => ?_
    · rintro plain ⟨s₁, bitmap₁⟩ ⟨hs₁, rfl, hr⟩
      obtain rfl : plain = dataFork := Except.ok.inj (hr.trans hdf)
      refine (freePlain_ends hS hdk hs₁).bind ?_ fun e after hf => by cases hf.ok
      rintro ⟨⟩ ⟨s₂, bitmap₂⟩ hf₂
      -- Releasing blocks does not touch the store, so the resource fork is still found.
      refine (normalizeFork_ends hS h hf₂.holds .resource).bind ?_ fun e after hr => ?_
      · rintro plain ⟨s₃, bitmap₃⟩ ⟨hs₃, rfl, hr⟩
        obtain rfl : plain = resourceFork := Except.ok.inj (hr.trans hrf)
        refine (freePlain_ends hS hrk hs₃).bind ?_ fun e after hf => by cases hf.ok
        rintro ⟨⟩ ⟨s₄, bitmap₄⟩ hf₄
        refine ⟨hf₄.holds, rfl, ?_⟩
        rw [Bitmap.releaseAll_append, Bitmap.releaseAll_append, ← hf₂.bitmap_eq, ← hf₄.bitmap_eq]
        rfl
      · have := hr.2.2
        rw [hrf] at this
        cases this
    · have := hr.2.2
      rw [hdf] at this
      cases this
  · unfold freeFork
    rw [Descriptor.blocks_plain he]
    obtain ⟨levels, _, -, hkeeps⟩ := h.ok (Descriptor.fork?_data he)
    rw [hkeeps.levels_eq, hkeeps.plainBlocks_eq]
    exact freeSubtree_ends hS hs hkeeps.lt_size

end Diskette
