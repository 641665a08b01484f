import Diskette.Proofs.Bitmap
import Diskette.Proofs.Fork.Reading
import Mathlib.Data.List.Perm.Basic

/-!
# Forks are written as they are to be read

Whatever comes of a write, it takes free blocks from the bitmap, changes no other blocks of the
store, and remembers what it took. If it succeeds, the blocks that it took are those of a tree, and
the leaves of the tree are the blocks of the data.

* `Grew`: what a write may do.
* `Grafted`: what a written subtree is.
* `writeSubtree_ends`, `writePlain_ends`: a subtree, and the data of a fork.
-/

namespace Diskette.Draft

open Diskette.Action

variable {κ : Type} [BlockStore κ] {n : Nat} {Holds : κ → (Nat → Block) → Prop}
  {c c' : Nat → Block} {draft draft' start : Draft κ} {new new' : List Nat} {data : ByteArray}
  {blocks level first root : Nat}

/-! ## Growth -/

omit [BlockStore κ] in
/-- From `draft` to `draft'` the blocks in `new` were taken, and none of the others was changed. -/
structure Grew (Holds : κ → (Nat → Block) → Prop) (draft : Draft κ) (c : Nat → Block)
    (draft' : Draft κ) (c' : Nat → Block) (new : List Nat) : Prop where
  holds : Holds draft'.store c'
  taken_eq : draft'.taken = new ++ draft.taken
  took : draft.bitmap.Took new draft'.bitmap
  contents_eq {block : Nat} (h : block ∉ new) : c' block = c block

omit [BlockStore κ] in
theorem Grew.refl (h : Holds draft.store c) : Grew Holds draft c draft c [] :=
  ⟨h, rfl, .refl _, fun _ => rfl⟩

omit [BlockStore κ] in
theorem Grew.trans {c'' : Nat → Block} {draft'' : Draft κ} (h : Grew Holds draft c draft' c' new)
    (h' : Grew Holds draft' c' draft'' c'' new') :
    Grew Holds draft c draft'' c'' (new' ++ new) where
  holds := h'.holds
  taken_eq := by rw [h'.taken_eq, h.taken_eq, List.append_assoc]
  took := h.took.trans h'.took
  contents_eq hb := by
    rw [List.mem_append, not_or] at hb
    exact (h'.contents_eq hb.1).trans (h.contents_eq hb.2)

omit [BlockStore κ] in
/-- What was taken before is not taken again. -/
theorem Grew.notMem_of_mem {c'' : Nat → Block} {draft'' : Draft κ}
    (h : Grew Holds draft c draft' c' new) (h' : Grew Holds draft' c' draft'' c'' new')
    {block : Nat} (hb : block ∈ new) : block ∉ new' := fun hb' =>
  (h.took.isFree_of_isFree (h'.took.free hb')).2 hb

omit [BlockStore κ] in
theorem Grew.isFree_zero (h : Grew Holds draft c draft' c' new)
    (h0 : draft.bitmap.isFree 0 = false) : draft'.bitmap.isFree 0 = false := by
  rw [h.took.isFree_eq, h0, Bool.false_and]

omit [BlockStore κ] in
theorem Grew.ne_zero (h : Grew Holds draft c draft' c' new) (h0 : draft.bitmap.isFree 0 = false)
    {block : Nat} (hb : block ∈ new) : block ≠ 0 := by
  rintro rfl
  rw [h.took.free hb] at h0
  cases h0

omit [BlockStore κ] in
theorem takeBlock_ends (h : Holds draft.store c) :
    Ends takeBlock draft fun r draft' =>
      match r with
      | .ok block => Grew Holds draft c draft' c [block]
      | .error _ => Grew Holds draft c draft' c [] := by
  obtain ⟨store, bitmap, taken⟩ := draft
  unfold Ends EStateM.run takeBlock
  cases ha : bitmap.alloc with
  | mk found after =>
    cases found with
    | some block =>
      simp only [ha]
      exact ⟨h, rfl, Bitmap.took_alloc ha, fun _ => rfl⟩
    | none =>
      obtain rfl := Bitmap.alloc_eq_none ha
      simp only [ha]
      exact Grew.refl h

/-- A block that was taken is written. -/
theorem Grew.putBlock_ends (hS : ArrayStore n Holds) (h : Grew Holds start c draft c' new)
    {block : Nat} (hb : block ∈ new) (bytes : Block) :
    Ends (putBlock block bytes) draft fun r draft' =>
      match r with
      | .ok _ => Grew Holds start c draft' (Function.update c' block bytes) new ∧ block < n
      | .error _ => Grew Holds start c draft' c' new := by
  obtain ⟨store, bitmap, taken⟩ := draft
  unfold putBlock
  rw [ends_zoom]
  have hends := hS.write_ends h.holds block bytes
  unfold Ends at hends ⊢
  dsimp only at *
  cases hr : (BlockStore.writeBlock block bytes).run store with
  | ok a store' =>
    rw [hr] at hends
    refine ⟨⟨hends, h.taken_eq, h.took, fun {other} ho => ?_⟩, hS.lt_of_write h.holds hr⟩
    have hne : other ≠ block := fun he => ho (he ▸ hb)
    rw [Function.update_of_ne hne, h.contents_eq ho]
  | error e store' =>
    rw [hr] at hends
    exact ⟨hends, h.taken_eq, h.took, h.contents_eq⟩

/-! ## Subtrees -/

/-- The blocks in `new` are those of a tree whose leaves are the blocks of the data from number
`first` on, as far as there are any. -/
structure Grafted (n : Nat) (c : Nat → Block) (data : ByteArray) (blocks level first root : Nat)
    (new : List Nat) : Prop where
  perm : (Tree.blocks c level root).Perm new
  lt_size {block : Nat} (h : block ∈ new) : block < n
  leaf_eq {k : Nat} (h : k < spanOf level) (hb : first + k < blocks) :
    Tree.leaf c level root k = dataBlock data (first + k)

theorem Grafted.congr (h : Grafted n c data blocks level first root new)
    (hc : ∀ block ∈ new, c' block = c block) : Grafted n c' data blocks level first root new := by
  have hblocks : ∀ block ∈ Tree.blocks c level root, c' block = c block := fun block hb =>
    hc block (h.perm.mem_iff.mp hb)
  refine ⟨?_, h.lt_size, fun hk hb => ?_⟩
  · rw [Tree.blocks_congr hblocks]
    exact h.perm
  · rw [Tree.leaf_congr hk hblocks, h.leaf_eq hk hb]

/-- The blocks in `new` are those of a row of trees whose leaves are the blocks of the data from
number `first` on. -/
structure Branches (n : Nat) (c : Nat → Block) (data : ByteArray) (blocks level first : Nat)
    (roots new : List Nat) : Prop where
  perm : (roots.flatMap (Tree.blocks c level)).Perm new
  lt_size {block : Nat} (h : block ∈ new) : block < n
  pointer_lt {root : Nat} (h : root ∈ roots) : root < 0x10000
  leaf_eq {i root k : Nat} (hi : roots[i]? = some root) (hk : k < spanOf level)
    (hb : first + i * spanOf level + k < blocks) :
    Tree.leaf c level root k = dataBlock data (first + i * spanOf level + k)

theorem branches_nil : Branches n c data blocks level first [] [] :=
  ⟨.nil, nofun, nofun, nofun⟩

theorem Grafted.cons {roots : List Nat} (h : Grafted n c data blocks level first root new)
    (hroot : root < 0x10000) (h' : Branches n c data blocks level (first + spanOf level) roots new') :
    Branches n c data blocks level first (root :: roots) (new' ++ new) where
  perm := by
    rw [List.flatMap_cons]
    exact (h.perm.append h'.perm).trans List.perm_append_comm
  lt_size hb := by
    rcases List.mem_append.mp hb with hb | hb
    · exact h'.lt_size hb
    · exact h.lt_size hb
  pointer_lt hr := by
    rcases List.mem_cons.mp hr with rfl | hr
    · exact hroot
    · exact h'.pointer_lt hr
  leaf_eq {i other k} hi hk hb := by
    cases i with
    | zero =>
      obtain rfl : root = other := Option.some.inj hi
      rw [Nat.zero_mul, Nat.add_zero] at hb ⊢
      exact h.leaf_eq hk hb
    | succ i =>
      have hplace : first + (i + 1) * spanOf level + k =
          first + spanOf level + i * spanOf level + k := by
        rw [Nat.succ_mul]
        omega
      rw [hplace] at hb ⊢
      exact h'.leaf_eq hi hk hb

/-- A list read by its places, with holes past its end. -/
private theorem flatMap_getElem?_range {α : Type} (l : List Nat) {f : Nat → List α} {m : Nat}
    (hm : l.length ≤ m) (h0 : f 0 = []) :
    ((List.range m).flatMap fun i => f ((l[i]?).getD 0)) = l.flatMap f := by
  induction l generalizing m with
  | nil => simp [h0]
  | cons a l ih =>
    obtain ⟨m, rfl⟩ : ∃ m', m = m' + 1 := ⟨m - 1, by rw [List.length_cons] at hm; omega⟩
    rw [List.range_succ_eq_map, List.flatMap_cons, List.flatMap_map, List.flatMap_cons]
    congr 1
    exact ih (Nat.le_of_succ_le_succ hm)

theorem Branches.pointer_eq {roots : List Nat} (h : Branches n c data blocks level first roots new)
    {i : Nat} (hi : i < 256) :
    Node.pointer (Node.pack roots.toArray) i = (roots[i]?).getD 0 := by
  have hget : (roots.toArray[i]?).getD 0 = (roots[i]?).getD 0 := by rw [List.getElem?_toArray]
  have hlt : (roots.toArray[i]?).getD 0 < 0x10000 := by
    rw [hget]
    cases hr : roots[i]? with
    | none => decide
    | some root => exact h.pointer_lt (List.mem_of_getElem? hr)
  rw [Node.pointer_pack hi hlt, hget]

/-- A row of trees under a node. -/
theorem Branches.graft {roots : List Nat} {key : Nat}
    (h : Branches n c data blocks level first roots new) (hkey : key ∉ new) (h0 : key ≠ 0)
    (hlt : key < n) (hlength : roots.length ≤ 256)
    (hcover : ∀ {k : Nat}, k < spanOf (level + 1) → first + k < blocks →
      k / spanOf level < roots.length) :
    Grafted n (Function.update c key (Node.pack roots.toArray)) data blocks (level + 1) first key
      (new ++ [key]) := by
  -- The node goes to a block that none of the trees uses, so all of them read as before.
  have hsame : ∀ root ∈ roots, ∀ block ∈ Tree.blocks c level root,
      Function.update c key (Node.pack roots.toArray) block = c block := by
    intro root hr block hb
    refine Function.update_of_ne ?_ _ _
    rintro rfl
    exact hkey (h.perm.mem_iff.mp (List.mem_flatMap.mpr ⟨root, hr, hb⟩))
  refine ⟨?_, fun hb => ?_, fun {k} hk hb => ?_⟩
  · rw [Tree.blocks, if_neg h0]
    refine List.Perm.append ?_ (.refl _)
    have hpointers : ((List.range 256).flatMap fun i =>
        Tree.blocks (Function.update c key (Node.pack roots.toArray)) level
          (Node.pointer (Function.update c key (Node.pack roots.toArray) key) i)) =
        roots.flatMap (Tree.blocks (Function.update c key (Node.pack roots.toArray)) level) := by
      rw [Function.update_self, ← flatMap_getElem?_range roots hlength (Tree.blocks_hole level)]
      exact List.flatMap_congr fun i hi => by rw [h.pointer_eq (List.mem_range.mp hi)]
    rw [hpointers, List.flatMap_congr fun root hr => Tree.blocks_congr (hsame root hr)]
    exact h.perm
  · rcases List.mem_append.mp hb with hb | hb
    · exact h.lt_size hb
    · rwa [List.mem_singleton.mp hb]
  · have hi := hcover hk hb
    have hroot : roots[k / spanOf level]? = some roots[k / spanOf level] :=
      List.getElem?_eq_getElem hi
    have hplace : first + k / spanOf level * spanOf level + k % spanOf level = first + k := by
      rw [Nat.add_assoc, Nat.div_add_mod']
    rw [Tree.leaf, Tree.target_of_ne h0, Function.update_self, h.pointer_eq (by omega), hroot,
      Option.getD_some, Tree.leaf_congr (Nat.mod_lt _ (spanOf_pos level))
        (hsame _ (List.getElem_mem hi)),
      h.leaf_eq hroot (Nat.mod_lt _ (spanOf_pos level)) (by rw [hplace]; exact hb), hplace]

/-! ## Holes -/

theorem dataBlock_of_isHole {count first : Nat} (h : isHole data count first = true) {k : Nat}
    (hk : k < count) : dataBlock data (first + k) = zeroBlock := by
  induction count generalizing first k with
  | zero => omega
  | succ count ih =>
    simp only [isHole, Bool.and_eq_true, decide_eq_true_eq] at h
    cases k with
    | zero => exact h.1
    | succ k =>
      have hplace : first + (k + 1) = first + 1 + k := by omega
      rw [hplace]
      exact ih h.2 (Nat.lt_of_succ_lt_succ hk)

theorem grafted_hole (h : ∀ k, k < spanOf level → first + k < blocks →
    dataBlock data (first + k) = zeroBlock) : Grafted n c data blocks level first 0 [] where
  perm := by rw [Tree.blocks_hole]
  lt_size := nofun
  leaf_eq hk hb := by
    rw [Tree.leaf_hole, h _ hk hb]
    rfl

/-! ## Writing -/

/-- What writing a subtree comes to, whatever came of it. -/
def WritesTree (n : Nat) (Holds : κ → (Nat → Block) → Prop) (data : ByteArray)
    (blocks level first : Nat) (act : Action (Draft κ) Nat) : Prop :=
  ∀ {draft : Draft κ} {c : Nat → Block}, Holds draft.store c → draft.bitmap.isFree 0 = false →
    Ends act draft fun r draft' => ∃ c' new, Grew Holds draft c draft' c' new ∧
      ∀ root, r = .ok root → Grafted n c' data blocks level first root new

omit [BlockStore κ] in
private theorem writeChildren_ends {child : (first : Nat) → Action (Draft κ) Nat}
    (hchild : ∀ first, WritesTree n Holds data blocks level first (child first)) (count : Nat) :
    ∀ {draft : Draft κ} {c : Nat → Block} {first : Nat} (pointers : Array Nat),
      Holds draft.store c → draft.bitmap.isFree 0 = false →
      Ends (writeChildren child (spanOf level) count first pointers) draft fun r draft' =>
        ∃ c' new, Grew Holds draft c draft' c' new ∧ ∀ all, r = .ok all →
          ∃ roots, roots.length = count ∧ all = pointers ++ roots.toArray ∧
            Branches n c' data blocks level first roots new := by
  induction count with
  | zero =>
    intro draft c first pointers h _
    refine ⟨c, [], .refl h, fun all hr => ⟨[], rfl, ?_, branches_nil⟩⟩
    exact (Except.ok.inj hr).symm.trans (Array.append_empty).symm
  | succ count ih =>
    intro draft c first pointers h h0
    unfold writeChildren
    -- What a failed child took is `new₁`: the blocks are reported whether or not the rest succeeds,
    -- so that the caller can give them back.
    refine (hchild first h h0).bind ?_ fun e draft₁ ⟨c₁, new₁, hg₁, _⟩ =>
      ⟨c₁, new₁, hg₁, fun _ hr => by cases hr⟩
    rintro root draft₁ ⟨c₁, new₁, hg₁, hgrafted⟩
    simp only [ends_bind, ends_ofExcept]
    by_cases hroot : root < 0x10000
    · have hcheck : checkPointer root = .ok () := if_pos hroot
      rw [hcheck]
      refine (ih (pointers.push root) hg₁.holds (hg₁.isFree_zero h0)).mono ?_
      rintro r draft₂ ⟨c₂, new₂, hg₂, hok⟩
      refine ⟨c₂, new₂ ++ new₁, hg₁.trans hg₂, fun all hr => ?_⟩
      obtain ⟨roots, hlength, rfl, hbranches⟩ := hok all hr
      refine ⟨root :: roots, by rw [List.length_cons, hlength], ?_, ?_⟩
      · simp
      · refine ((hgrafted root rfl).congr fun block hb => ?_).cons hroot hbranches
        exact hg₂.contents_eq (hg₁.notMem_of_mem hg₂ hb)
    · have hcheck : checkPointer root = .error (.unsupported (.pointerTooLarge root)) :=
        if_neg hroot
      rw [hcheck]
      exact ⟨c₁, new₁, hg₁, fun _ hr => by cases hr⟩

/-- The number of subtrees of a node is enough for the blocks, and no more than it has room for. -/
theorem children_count {span covered : Nat} (hspan : 0 < span) (h : covered ≤ 256 * span) :
    (covered + (span - 1)) / span ≤ 256 ∧
      ∀ k, k < covered → k / span < (covered + (span - 1)) / span := by
  refine ⟨?_, fun k hk => ?_⟩
  · refine Nat.le_of_lt_succ (Nat.div_lt_of_lt_mul ?_)
    rw [Nat.mul_succ, Nat.mul_comm]
    omega
  · have hle : (k + span) / span ≤ (covered + (span - 1)) / span :=
      Nat.div_le_div_right (by omega)
    rw [Nat.add_div_right _ hspan] at hle
    exact hle

/-- A data block is written, or left out as a hole. -/
private theorem writeLeaf_ends (hS : ArrayStore n Holds) (data : ByteArray) (blocks first : Nat) :
    WritesTree n Holds data blocks 0 first (writeSubtree data blocks 0 first) := by
  intro draft c h h0
  unfold writeSubtree
  split
  · next hhole =>
    refine ⟨c, [], .refl h, fun root hr => ?_⟩
    obtain rfl : 0 = root := Except.ok.inj hr
    exact grafted_hole fun k hk _ => dataBlock_of_isHole hhole.2 hk
  · refine (takeBlock_ends h).bind ?_ fun e draft₁ hg => ⟨c, [], hg, fun _ hr => by cases hr⟩
    intro block draft₁ hg₁
    refine (hg₁.putBlock_ends hS (List.mem_singleton_self block) _).bind ?_ fun e draft₂ hg₂ =>
      ⟨c, _, hg₂, fun _ hr => by cases hr⟩
    rintro _ draft₂ ⟨hg₂, hlt⟩
    refine ⟨_, _, hg₂, fun root hr => ?_⟩
    obtain rfl : block = root := Except.ok.inj hr
    have hne := hg₁.ne_zero h0 (List.mem_singleton_self block)
    refine ⟨?_, fun hb => ?_, fun {k} hk _ => ?_⟩
    · rw [Tree.blocks, if_neg hne]
    · rwa [List.mem_singleton.mp hb]
    · obtain rfl : k = 0 := Nat.lt_one_iff.mp hk
      rw [Tree.leaf, Tree.target_of_ne hne, Function.update_self]
      rfl

/-- A subtree is written. -/
theorem writeSubtree_ends (hS : ArrayStore n Holds) (data : ByteArray) (blocks level : Nat) :
    ∀ first, WritesTree n Holds data blocks level first (writeSubtree data blocks level first) := by
  -- On the level: a node is written after its children, whose induction is `writeChildren_ends`.
  induction level with
  | zero => exact writeLeaf_ends hS data blocks
  | succ level ih =>
    intro first draft c h h0
    unfold writeSubtree
    dsimp only
    -- Of the last node only a part lies in front of the end of the data.
    have hcovered {k : Nat} (hk : k < spanOf (level + 1)) (hb : first + k < blocks) :
        k < min (spanOf (level + 1)) (blocks - first) := by omega
    obtain ⟨hroom, hcount⟩ := children_count (spanOf_pos level)
      (Nat.min_le_left (spanOf (level + 1)) (blocks - first))
    split
    · next hhole =>
      refine ⟨c, [], .refl h, fun root hr => ?_⟩
      obtain rfl : 0 = root := Except.ok.inj hr
      exact grafted_hole fun k hk hb => dataBlock_of_isHole hhole.2 (hcovered hk hb)
    · refine (takeBlock_ends h).bind ?_ fun e draft₁ hg => ⟨c, [], hg, fun _ hr => by cases hr⟩
      intro key draft₁ hg₁
      refine (writeChildren_ends ih _ #[] hg₁.holds (hg₁.isFree_zero h0)).bind ?_
        fun e draft₂ hgrown => by
          obtain ⟨c₂, new₂, hg₂, -⟩ := hgrown
          exact ⟨c₂, _, hg₁.trans hg₂, fun _ hr => by cases hr⟩
      rintro all draft₂ ⟨c₂, new₂, hg₂, hok⟩
      obtain ⟨roots, hlength, rfl, hbranches⟩ := hok all rfl
      have hkey : key ∈ new₂ ++ [key] := List.mem_append_right _ (List.mem_singleton_self key)
      refine ((hg₁.trans hg₂).putBlock_ends hS hkey _).bind ?_ fun e draft₃ hg₃ =>
        ⟨c₂, _, hg₃, fun _ hr => by cases hr⟩
      rintro _ draft₃ ⟨hg₃, hlt⟩
      refine ⟨_, _, hg₃, fun root hr => ?_⟩
      obtain rfl : key = root := Except.ok.inj hr
      rw [Array.empty_append]
      refine hbranches.graft (hg₁.notMem_of_mem hg₂ (List.mem_singleton_self key))
        (hg₁.ne_zero h0 (List.mem_singleton_self key)) hlt (by rw [hlength]; exact hroom) ?_
      intro k hk hb
      rw [hlength]
      exact hcount k (hcovered hk hb)

/-! ## Whole forks -/

/-- What a descriptor of a fork that was just written keeps, and what the fork takes. -/
structure Written (n : Nat) (c : Nat → Block) (descriptor : Descriptor) (data : ByteArray)
    (new : List Nat) : Prop where
  keeps : ∃ levels, Keeps n c levels descriptor data ∧
    (Tree.blocks c levels descriptor.keyBlock).Perm new
  eof_le : descriptor.eof ≤ maxEof

theorem Written.congr {descriptor : Descriptor} (h : Written n c descriptor data new)
    (hc : ∀ block ∈ new, c' block = c block) : Written n c' descriptor data new := by
  obtain ⟨levels, hkeeps, hperm⟩ := h.keeps
  have hblocks : ∀ block ∈ Tree.blocks c levels descriptor.keyBlock, c' block = c block :=
    fun block hb => hc block (hperm.mem_iff.mp hb)
  refine ⟨⟨levels, hkeeps.congr hblocks, ?_⟩, h.eof_le⟩
  rw [Tree.blocks_congr hblocks]
  exact hperm

theorem exists_levels_forBlocks (blocks : Nat) :
    ∃ levels, (StorageType.forBlocks blocks).levels? = some levels := by
  unfold StorageType.forBlocks
  split
  · exact ⟨0, rfl⟩
  · split
    · exact ⟨1, rfl⟩
    · exact ⟨2, rfl⟩

/-- A fork is written. -/
theorem writePlain_ends (hS : ArrayStore n Holds) (h : Holds draft.store c)
    (h0 : draft.bitmap.isFree 0 = false) (data : ByteArray) :
    Ends (writePlain data) draft fun r draft' => ∃ c' new, Grew Holds draft c draft' c' new ∧
      ∀ descriptor, r = .ok descriptor → Written n c' descriptor data new ∧
        descriptor.blocksUsed = draft'.taken.length := by
  unfold writePlain
  split
  · exact ⟨c, [], .refl h, fun _ hr => by cases hr⟩
  · next hsize =>
    have hmax : data.size ≤ maxEof := Nat.not_lt.mp hsize
    dsimp only
    obtain ⟨levels, hlevels⟩ := exists_levels_forBlocks (max 1 ((data.size + 511) / 512))
    have hroom : max 1 ((data.size + 511) / 512) ≤ spanOf levels := by
      refine holds_of_forBlocks hlevels ?_
      change max 1 ((data.size + 511) / 512) ≤ 65536
      change data.size ≤ 16777215 at hmax
      omega
    rw [hlevels, Option.getD_some]
    refine (writeSubtree_ends hS data _ levels 0 h h0).bind ?_
      fun e draft₁ ⟨c₁, new₁, hg₁, _⟩ => ⟨c₁, new₁, hg₁, fun _ hr => by cases hr⟩
    rintro key draft₁ ⟨c₁, new₁, hg₁, hgrafted⟩
    refine ⟨c₁, new₁, hg₁, fun descriptor hr => ?_⟩
    obtain rfl := Except.ok.inj hr
    have htree := hgrafted key rfl
    refine ⟨⟨⟨levels, ⟨hlevels, rfl, by omega, fun block hb => ?_, fun {k} hk => ?_⟩, htree.perm⟩,
      hmax⟩, rfl⟩
    · exact htree.lt_size (htree.perm.mem_iff.mp hb)
    · have hplace := htree.leaf_eq (show k < spanOf levels by omega)
        (show 0 + k < max 1 ((data.size + 511) / 512) by omega)
      rwa [Nat.zero_add] at hplace

end Diskette.Draft
