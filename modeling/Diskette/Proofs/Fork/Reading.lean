import Diskette.Fork.Writing
import Diskette.Proofs.BlockArray
import Diskette.Proofs.Fork.Tree

/-!
# Forks are read as they are stored

In front of a store that behaves as an array of blocks, reading a fork gives the data blocks of its
tree one after the other, as many bytes as the fork has.

* `Spells`: bytes that are a row of blocks.
* `run_readIndex`: a tree is read.
* `Keeps`: what it is for a descriptor to keep data.
* `Keeps.run_readPlain`: data that is kept is read.
-/

namespace Diskette

open Diskette.Action

variable {κ : Type} [BlockStore κ] {n : Nat} {Holds : κ → (Nat → Block) → Prop} {s : κ}
  {c c' : Nat → Block} {len : Nat}

/-! ## Rows of blocks -/

/-- The bytes are the first `len` ones of the blocks `get 0`, `get 1`, and so on. -/
structure Spells (bytes : ByteArray) (len : Nat) (get : Nat → Block) : Prop where
  size_eq : bytes.size = len
  byte_eq {i : Nat} (h : i < len) : byteAt bytes i = (get (i / 512)).byte (i % 512)

theorem spells_zeros (len : Nat) : Spells (zeros len) len fun _ => Bytes.zero 512 :=
  ⟨size_zeros len, fun _ => by rw [byteAt_zeros, Bytes.byte_zero]⟩

theorem Spells.congr {bytes : ByteArray} {get get' : Nat → Block} (h : Spells bytes len get)
    (hget : ∀ k, k * 512 < len → get' k = get k) : Spells bytes len get' where
  size_eq := h.size_eq
  byte_eq hi := by
    rw [h.byte_eq hi, hget _ (by omega)]

/-- A part of a single block. -/
theorem spells_slice (block : Block) (h : len ≤ 512) :
    Spells (slice block.data 0 len ++ zeros (len - 512)) len fun _ => block where
  size_eq := by
    rw [ByteArray.size_append, size_slice, block.size_data, size_zeros]
    omega
  byte_eq {i} hi := by
    rw [byteAt_append, size_slice, block.size_data, if_pos (by omega), byteAt_slice, if_pos hi,
      Nat.zero_add, Nat.mod_eq_of_lt (by omega)]
    rfl

theorem Spells.append_empty {head rest : ByteArray} {get : Nat → Block} (h : Spells head len get)
    (hr : rest.size = 0) : Spells (head ++ rest) len get where
  size_eq := by rw [ByteArray.size_append, h.size_eq, hr, Nat.add_zero]
  byte_eq hi := by rw [byteAt_append, h.size_eq, if_pos hi, h.byte_eq hi]

/-- A row of whole blocks before another row. -/
theorem Spells.append {head rest : ByteArray} {blocks : Nat} {get : Nat → Block}
    (h : Spells head (blocks * 512) get) (h' : Spells rest len fun k => get (blocks + k)) :
    Spells (head ++ rest) (blocks * 512 + len) get where
  size_eq := by rw [ByteArray.size_append, h.size_eq, h'.size_eq]
  byte_eq {i} hi := by
    rw [byteAt_append, h.size_eq]
    split
    · next hlt => exact h.byte_eq hlt
    · have hdiv : blocks + (i - blocks * 512) / 512 = i / 512 := by omega
      have hmod : (i - blocks * 512) % 512 = i % 512 := by omega
      rw [h'.byte_eq (by omega), hdiv, hmod]

/-! ## Trees -/

variable (hS : ArrayStore n Holds)

/-- The data blocks of the subtrees of a node from number `index` on. -/
private def childLeaf (c : Nat → Block) (level : Nat) (node : Block) (index k : Nat) : Block :=
  Tree.leaf c level (Node.pointer node (index + k / spanOf level)) (k % spanOf level)

private theorem childLeaf_of_lt {level : Nat} {node : Block} {index k : Nat} (h : k < spanOf level) :
    childLeaf c level node index k = Tree.leaf c level (Node.pointer node index) k := by
  rw [childLeaf, Nat.div_eq_of_lt h, Nat.mod_eq_of_lt h, Nat.add_zero]

private theorem childLeaf_add {level : Nat} {node : Block} {index k : Nat} :
    childLeaf c level node index (spanOf level + k) = childLeaf c level node (index + 1) k := by
  rw [childLeaf, childLeaf, Nat.add_div_left _ (spanOf_pos level), Nat.add_mod_left, Nat.add_assoc,
    Nat.add_comm 1]

/-- The first subtree and what follows it, when `len` bytes are left in all. -/
private theorem spells_children {level : Nat} {node : Block} {index len : Nat}
    {head rest : ByteArray}
    (hhead : Spells head (min (spanOf level * 512) len)
      (Tree.leaf c level (Node.pointer node index)))
    (hrest : Spells rest (len - min (spanOf level * 512) len)
      (childLeaf c level node (index + 1))) :
    Spells (head ++ rest) len (childLeaf c level node index) := by
  rcases Nat.le_total len (spanOf level * 512) with hle | hle
  · rw [Nat.min_eq_right hle] at hhead hrest
    rw [Nat.sub_self] at hrest
    refine (hhead.append_empty hrest.size_eq).congr fun k hk => ?_
    exact childLeaf_of_lt (by omega)
  · rw [Nat.min_eq_left hle] at hhead hrest
    have hall := (hhead.congr fun k hk => childLeaf_of_lt (by omega)).append
      (hrest.congr fun k _ => childLeaf_add)
    rwa [Nat.add_sub_cancel' hle] at hall

/-- An offset where a subtree starts is one where its first data block starts. -/
private theorem div_mod_eq_zero {offset span : Nat} (h : offset % (512 * span) = 0) :
    offset / 512 % span = 0 := by
  obtain ⟨q, rfl⟩ := Nat.dvd_of_mod_eq_zero h
  rw [Nat.mul_assoc, Nat.mul_div_cancel_left _ (by decide), Nat.mul_mod_right]

include hS in
theorem run_readNode (h : Holds s c) {root : Nat} (hr : root ≠ 0 → root < n) :
    ∃ s', (readNode root).run s = .ok (Tree.target c root) s' ∧ Holds s' c := by
  unfold readNode
  by_cases hroot : root = 0
  · exact ⟨s, by rw [if_pos hroot, hroot]; rfl, h⟩
  · obtain ⟨s', hrun⟩ := hS.read_ok h (hr hroot)
    have hends := (hS.read_ends h root).of_ok hrun
    refine ⟨s', ?_, hends.1⟩
    rw [if_neg hroot, Tree.target_of_ne hroot]
    exact hrun

omit [BlockStore κ] in
private theorem run_readChildren {level : Nat} {node : Block}
    {child : (root len offset : Nat) → Action κ ByteArray}
    (hchild : ∀ {s : κ} {root len offset : Nat}, Holds s c →
      (∀ block ∈ Tree.blocks c level root, block < n) → len ≤ spanOf level * 512 →
      offset % (512 * spanOf level) = 0 →
      ∃ bytes s', (child root len offset).run s = .ok bytes s' ∧ Holds s' c ∧
        Spells bytes len (Tree.leaf c level root))
    (count : Nat) :
    ∀ {s : κ} {index len offset : Nat} (acc : ByteArray), Holds s c → index + count = 256 →
      (∀ i, i < 256 → ∀ block ∈ Tree.blocks c level (Node.pointer node i), block < n) →
      len ≤ count * (spanOf level * 512) → (len ≠ 0 → offset % (512 * spanOf level) = 0) →
      ∃ bytes s', (readChildren child (spanOf level) node count index len offset acc).run s =
        .ok (acc ++ bytes) s' ∧ Holds s' c ∧ Spells bytes len (childLeaf c level node index) := by
  -- On the pointers that are left; what was read so far is in front of `acc`, whatever it is.
  induction count with
  | zero =>
    intro s index len offset acc h _ _ hlen _
    obtain rfl : len = 0 := by omega
    exact ⟨zeros 0, s, rfl, h, size_zeros 0, nofun⟩
  | succ count ih =>
    intro s index len offset acc h hindex hbound hlen hoffset
    by_cases hzero : len = 0
    · subst hzero
      refine ⟨ByteArray.empty, s, ?_, h, rfl, nofun⟩
      rw [ByteArray.append_empty]
      rfl
    · have haligned := hoffset hzero
      have htaken : min ((spanOf level - offset / 512 % spanOf level) * 512) len =
          min (spanOf level * 512) len := by
        rw [div_mod_eq_zero haligned, Nat.sub_zero]
      have hleft : len - min (spanOf level * 512) len ≤ count * (spanOf level * 512) := by
        rw [Nat.succ_mul] at hlen
        omega
      -- What is left to be read after this subtree starts where the next one does.
      have hnext (hne : len - min (spanOf level * 512) len ≠ 0) :
          (offset + min (spanOf level * 512) len) % (512 * spanOf level) = 0 := by
        rw [Nat.min_eq_left (by omega), Nat.mul_comm (spanOf level), Nat.add_mod_right]
        exact haligned
      obtain ⟨head, s₁, hrun₁, h₁, hhead⟩ :=
        hchild h (hbound index (by omega)) (Nat.min_le_left ..) haligned
      obtain ⟨rest, s₂, hrun₂, h₂, hrest⟩ :=
        ih (acc ++ head) h₁ (show index + 1 + count = 256 by omega) hbound hleft hnext
      refine ⟨head ++ rest, s₂, ?_, h₂, spells_children hhead hrest⟩
      rw [readChildren, if_neg hzero, htaken, ← ByteArray.append_assoc, ← hrun₂]
      exact run_bind_of_ok hrun₁ _

include hS in
/-- A tree is read. -/
theorem run_readIndex {level : Nat} :
    ∀ {s : κ} {root len offset : Nat}, Holds s c →
      (∀ block ∈ Tree.blocks c level root, block < n) → len ≤ spanOf level * 512 →
      offset % (512 * spanOf level) = 0 →
      ∃ bytes s', (readIndex level root len offset).run s = .ok bytes s' ∧ Holds s' c ∧
        Spells bytes len (Tree.leaf c level root) := by
  -- On the level: under a node the subtrees are read one after the other, which is
  -- `run_readChildren`.
  induction level with
  | zero =>
    intro s root len offset h hbound hlen _
    by_cases hroot : root = 0
    · subst hroot
      exact ⟨zeros len, s, rfl, h, spells_zeros len⟩
    · have hlt := hbound root (Tree.mem_blocks_root hroot)
      obtain ⟨s', hrun⟩ := hS.read_ok h hlt
      refine ⟨_, s', ?_, ((hS.read_ends h root).of_ok hrun).1, (spells_slice (c root) ?_).congr ?_⟩
      · unfold readIndex readLeaf
        rw [if_neg hroot]
        exact run_bind_of_ok hrun _
      · exact Nat.le_trans hlen (Nat.le_refl 512)
      · exact fun _ _ => Tree.target_of_ne hroot
  | succ level ih =>
    intro s root len offset h hbound hlen hoffset
    obtain ⟨s₁, hrun₁, h₁⟩ := run_readNode hS h fun hroot => hbound root (Tree.mem_blocks_root hroot)
    -- The offset is at the start of the subtree, so the first pointer that is followed is number 0.
    have hindex : offset / (512 * spanOf level) % 256 = 0 := by
      obtain ⟨q, rfl⟩ := Nat.dvd_of_mod_eq_zero hoffset
      have hspan : 512 * spanOf (level + 1) * q = 512 * spanOf level * (256 * q) := by
        rw [spanOf]
        ac_rfl
      have hpos := spanOf_pos level
      rw [hspan, Nat.mul_div_cancel_left _ (by omega), Nat.mul_mod_right]
    have hlen' : len ≤ 256 * (spanOf level * 512) := by
      rw [spanOf] at hlen
      omega
    have hoffset' : offset % (512 * spanOf level) = 0 := by
      refine Nat.mod_eq_zero_of_dvd (Nat.dvd_trans ?_ (Nat.dvd_of_mod_eq_zero hoffset))
      exact Nat.mul_dvd_mul_left 512 (Nat.dvd_mul_left ..)
    obtain ⟨bytes, s₂, hrun₂, h₂, hbytes⟩ := run_readChildren ih 256 ByteArray.empty h₁
      (Nat.zero_add 256) (fun i hi block hb => hbound block (Tree.blocks_child_subset hi hb)) hlen'
      fun _ => hoffset'
    refine ⟨bytes, s₂, ?_, h₂, hbytes.congr fun k _ => ?_⟩
    · rw [ByteArray.empty_append] at hrun₂
      rw [readIndex, run_bind_of_ok hrun₁]
      dsimp only
      rw [hindex]
      exact hrun₂
    · rw [childLeaf, Nat.zero_add]
      rfl

/-! ## Forks -/

/-- The descriptor keeps the data: its tree has the blocks of the data, and they can be read. -/
structure Keeps (n : Nat) (c : Nat → Block) (levels : Nat) (descriptor : Descriptor)
    (data : ByteArray) : Prop where
  levels_eq : descriptor.storageType.levels? = some levels
  eof_eq : descriptor.eof = data.size
  size_le : data.size ≤ spanOf levels * 512
  lt_size : ∀ block ∈ Tree.blocks c levels descriptor.keyBlock, block < n
  leaf_eq {k : Nat} (h : k * 512 < data.size) :
    Tree.leaf c levels descriptor.keyBlock k = Draft.dataBlock data k

theorem Keeps.congr {levels : Nat} {descriptor : Descriptor} {data : ByteArray}
    (h : Keeps n c levels descriptor data)
    (hc : ∀ block ∈ Tree.blocks c levels descriptor.keyBlock, c' block = c block) :
    Keeps n c' levels descriptor data where
  levels_eq := h.levels_eq
  eof_eq := h.eof_eq
  size_le := h.size_le
  lt_size := by
    rw [Tree.blocks_congr hc]
    exact h.lt_size
  leaf_eq hk := by
    have := h.size_le
    rw [Tree.leaf_congr (by omega) hc, h.leaf_eq hk]

include hS in
/-- Data that is kept is read. -/
theorem Keeps.run_readPlain {levels : Nat} {descriptor : Descriptor} {data : ByteArray}
    (h : Keeps n c levels descriptor data) (hs : Holds s c) :
    ∃ bytes s', (readIndex levels descriptor.keyBlock ((descriptor.eof + 511) / 512 * 512) 0).run s =
      .ok bytes s' ∧ Holds s' c ∧ slice bytes 0 descriptor.eof = data := by
  have hsize := h.size_le
  obtain ⟨bytes, s', hrun, hs', hbytes⟩ := run_readIndex hS hs h.lt_size
    (show (data.size + 511) / 512 * 512 ≤ spanOf levels * 512 by omega) (Nat.zero_mod _)
  rw [← h.eof_eq] at hrun
  refine ⟨bytes, s', hrun, hs', ?_⟩
  have hlength : (slice bytes 0 descriptor.eof).size = data.size := by
    rw [size_slice, hbytes.size_eq, h.eof_eq]
    omega
  refine ext_byteAt hlength fun i hi => ?_
  rw [hlength] at hi
  rw [byteAt_slice, h.eof_eq, if_pos hi, Nat.zero_add, hbytes.byte_eq (by omega),
    h.leaf_eq (by omega), Draft.dataBlock, Bytes.byte_ofSlice, if_pos (Nat.mod_lt _ (by decide)),
    Nat.div_add_mod']

end Diskette
