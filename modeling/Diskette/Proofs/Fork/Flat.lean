import Diskette.Proofs.ExactStore
import Diskette.Proofs.Fork.Reading
import Mathlib.Algebra.Ring.Nat
import Mathlib.Data.List.GetD

/-!
# Reading a tree is reading its data blocks one by one

A tree is read node by node, and each subtree as far as the bytes asked for reach into it. What comes
of that is what comes of looking up the data blocks one after the other, each of them from the root
down: the same bytes, and the same error where some block cannot be read. Nothing is assumed of where
reading starts or ends, nor of which blocks can be read.

* `ReadsAs`: what there is to read in a store. `ExactStore.readsAs`: what there is in an exact one.
* `Tree.path`, `Tree.walk`: the pointers on the way to a data block, and the way itself.
* `readIndex_ends`: reading a tree is reading the blocks of a row.
* `readIndex_flat`: when a tree can be read, what is read then, and how reads add up.
-/

namespace Diskette

open Diskette.Action

variable {κ : Type} [BlockStore κ] {s : κ} {content : Nat → Except DiskError Block}
  {c : Nat → Block}

/-! ## What there is to read -/

/-- Reading a block comes to what `content` has for it, whatever has been read before. -/
def ReadsAs (s : κ) (content : Nat → Except DiskError Block) : Prop :=
  ∀ (earlier : List Nat) (block : Nat),
    (BlockStore.readBlock block).outcome
      (earlier.foldl (fun s block => (BlockStore.readBlock block).stateAfter s) s) = content block

theorem ReadsAs.read_ends (h : ReadsAs s content) (block : Nat) :
    Ends (BlockStore.readBlock block) s fun r s' => ReadsAs s' content ∧ r = content block :=
  ends_iff.mpr ⟨fun earlier => h (block :: earlier), h [] block⟩

/-- What holds before and after each read decides what there is to read. -/
theorem readsAs_of_read_ends {Shows : κ → Prop}
    (hread : ∀ {s : κ}, Shows s → ∀ block,
      Ends (BlockStore.readBlock block) s fun r s' => Shows s' ∧ r = content block)
    (h : Shows s) : ReadsAs s content := by
  intro earlier
  induction earlier generalizing s with
  | nil => exact fun block => (ends_iff.mp (hread h block)).2
  | cons first earlier ih => exact ih (ends_iff.mp (hread h first)).1

theorem ExactStore.readsAs {size : Nat} {readOnly : Bool} {Holds : κ → (Nat → Block) → Prop}
    (hS : ExactStore size readOnly Holds) (h : Holds s c) :
    ReadsAs s fun block =>
      if block < size then .ok (c block) else .error (.blockOutOfRange block size) :=
  have hread {s : κ} (hs : Holds s c) (block : Nat) :
      Ends (BlockStore.readBlock block) s fun r s' => Holds s' c ∧
        r = if block < size then .ok (c block) else .error (.blockOutOfRange block size) :=
    ends_iff.mpr ⟨(ends_iff.mp (hS.read_ends hs block)).1, hS.read_outcome hs block⟩
  readsAs_of_read_ends hread h

private theorem ok_bind {α β : Type} (a : α) (f : α → Except DiskError β) :
    (Except.ok a >>= f) = f a := rfl

/-! ## Rows of blocks -/

/-- The blocks `get start`, `get (start + 1)`, and so on, `count` in all. -/
def row (get : Nat → Except DiskError Block) :
    (count start : Nat) → Except DiskError (List Block)
  | 0, _ => pure []
  | count + 1, start => do
    let block ← get start
    let rest ← row get count (start + 1)
    pure (block :: rest)

variable {get get' : Nat → Except DiskError Block} {count count' start start' : Nat}

theorem row_congr (h : ∀ k, k < count → get (start + k) = get' (start' + k)) :
    row get count start = row get' count start' := by
  induction count generalizing start start' with
  | zero => rfl
  | succ count ih =>
    have hfirst : get start = get' start' := h 0 (Nat.succ_pos _)
    have hrest : row get count (start + 1) = row get' count (start' + 1) := by
      refine ih fun k hk => ?_
      rw [Nat.add_assoc, Nat.add_assoc, Nat.add_comm 1]
      exact h (k + 1) (Nat.succ_lt_succ hk)
    rw [row, row, hfirst, hrest]

theorem row_add :
    row get (count + count') start = (do
      let head ← row get count start
      let rest ← row get count' (start + count)
      pure (head ++ rest)) := by
  induction count generalizing start with
  | zero => simp [row]
  | succ count ih =>
    rw [Nat.add_right_comm, row, row, ih, Nat.add_assoc, Nat.add_comm 1]
    simp only [bind_assoc, pure_bind, List.cons_append]

/-- A row comes to its blocks, and to nothing unless each of them can be read. -/
theorem of_row_eq_ok {rows : List Block} (h : row get count start = .ok rows) :
    rows.length = count ∧
      ∀ k, k < count → get (start + k) = .ok (rows.getD k (Bytes.zero 512)) := by
  induction count generalizing start rows with
  | zero =>
    cases h
    exact ⟨rfl, nofun⟩
  | succ count ih =>
    rw [row] at h
    cases hfirst : get start with
    | error e =>
      rw [hfirst] at h
      cases h
    | ok block =>
      rw [hfirst] at h
      cases hrest : row get count (start + 1) with
      | error e =>
        rw [ok_bind, hrest] at h
        cases h
      | ok rest =>
        rw [ok_bind, hrest] at h
        cases h
        obtain ⟨hlength, hget⟩ := ih hrest
        refine ⟨by rw [List.length_cons, hlength], fun k hk => ?_⟩
        cases k with
        | zero => exact hfirst
        | succ k =>
          have hnext := hget k (Nat.lt_of_succ_lt_succ hk)
          rwa [Nat.add_assoc, Nat.add_comm 1] at hnext

theorem row_eq_ok {f : Nat → Block} (h : ∀ k, k < count → get (start + k) = .ok (f k)) :
    ∃ rows, row get count start = .ok rows := by
  induction count generalizing start f with
  | zero => exact ⟨[], rfl⟩
  | succ count ih =>
    have hlater (k : Nat) (hk : k < count) : get (start + 1 + k) = .ok (f (k + 1)) := by
      rw [Nat.add_assoc, Nat.add_comm 1]
      exact h (k + 1) (Nat.succ_lt_succ hk)
    obtain ⟨rest, hrest⟩ := ih hlater
    have hfirst : get start = .ok (f 0) := h 0 (Nat.succ_pos _)
    exact ⟨f 0 :: rest, by rw [row, hfirst, ok_bind, hrest]; rfl⟩

/-- The first `len` bytes of the blocks, with zeros past their end. -/
def spell (rows : List Block) (len : Nat) : ByteArray :=
  tabulate len fun i => (rows.getD (i / 512) (Bytes.zero 512)).byte (i % 512)

variable {rows rest : List Block} {len : Nat}

theorem spells_spell (rows : List Block) (len : Nat) :
    Spells (spell rows len) len fun k => rows.getD k (Bytes.zero 512) where
  size_eq := size_tabulate ..
  byte_eq hi := by rw [spell, byteAt_tabulate, if_pos hi]

/-- Bytes are spelled by the blocks that they are the bytes of. -/
theorem Spells.eq_spell {bytes : ByteArray} {get : Nat → Block} (h : Spells bytes len get)
    (hget : ∀ k, k * 512 < len → get k = rows.getD k (Bytes.zero 512)) :
    bytes = spell rows len := by
  refine ext_byteAt (h.size_eq.trans (size_tabulate ..).symm) fun i hi => ?_
  rw [h.size_eq] at hi
  rw [h.byte_eq hi, (spells_spell rows len).byte_eq hi, hget _ (by omega)]

theorem spell_nil (len : Nat) : spell [] len = zeros len :=
  ((spells_zeros len).eq_spell fun _ _ => List.getD_nil.symm).symm

theorem spell_zero (rows : List Block) : spell rows 0 = ByteArray.empty := rfl

theorem spell_append (rows rest : List Block) (len : Nat) :
    spell rows (rows.length * 512) ++ spell rest len =
      spell (rows ++ rest) (rows.length * 512 + len) := by
  let get : Nat → Block := fun k => (rows ++ rest).getD k (Bytes.zero 512)
  have hrows : Spells (spell rows (rows.length * 512)) (rows.length * 512) get := by
    refine (spells_spell rows _).congr fun k hk => ?_
    show (rows ++ rest).getD k _ = _
    rw [List.getD_append _ _ _ _ (by omega)]
  have hrest : Spells (spell rest len) len fun k => get (rows.length + k) := by
    refine (spells_spell rest len).congr fun k _ => ?_
    show (rows ++ rest).getD (rows.length + k) _ = _
    rw [List.getD_append_right _ _ _ _ (Nat.le_add_right ..), Nat.add_sub_cancel_left]
  exact (hrows.append hrest).eq_spell fun _ _ => rfl

/-! ## The way to a data block -/

theorem spanOf_eq_pow (level : Nat) : spanOf level = 256 ^ level := by
  induction level with
  | zero => rfl
  | succ level ih => rw [spanOf, ih, Nat.pow_succ']

namespace Tree

/-- The block that a pointer stands for, if it can be read; a hole stands for zeros. -/
def fetch (content : Nat → Except DiskError Block) (pointer : Nat) : Except DiskError Block :=
  if pointer = 0 then .ok (Bytes.zero 512) else content pointer

/-- Looks up data block number `k` under a root, from the root down. -/
def walk (content : Nat → Except DiskError Block) :
    (level root k : Nat) → Except DiskError Block
  | 0, root, _ => fetch content root
  | level + 1, root, k => do
    let node ← fetch content root
    walk content level (Node.pointer node (k / spanOf level)) (k % spanOf level)

/-- The pointers on the way to data block number `k` under a root, which is the first of them. -/
def path (c : Nat → Block) : (level root k : Nat) → List Nat
  | 0, root, _ => [root]
  | level + 1, root, k =>
    root :: path c level (Node.pointer (target c root) (k / spanOf level)) (k % spanOf level)

/-- The blocks that can be read, with zeros in place of the others. -/
def known (content : Nat → Except DiskError Block) (block : Nat) : Block :=
  match content block with
  | .ok data => data
  | .error _ => Bytes.zero 512

/-- Nothing is in the way of following a pointer: it is a hole, or its block can be read. -/
def Open (content : Nat → Except DiskError Block) (pointer : Nat) : Prop :=
  pointer ≠ 0 → ∃ data, content pointer = .ok data

theorem fetch_eq_ok_iff {pointer : Nat} {data : Block} :
    fetch content pointer = .ok data ↔
      Open content pointer ∧ data = target (known content) pointer := by
  unfold fetch Open target known
  split
  · next h => simp [h, eq_comm]
  · next h =>
    cases content pointer with
    | ok found => simp [h, eq_comm]
    | error e => simp [h]

/-- A data block can be looked up if the pointers on the way to it are open. -/
theorem walk_eq_ok_iff {level root k : Nat} {data : Block} :
    walk content level root k = .ok data ↔
      (∀ pointer ∈ path (known content) level root k, Open content pointer) ∧
        data = leaf (known content) level root k := by
  induction level generalizing root k with
  | zero =>
    rw [walk, path, leaf, fetch_eq_ok_iff, List.forall_mem_singleton]
  | succ level ih =>
    rw [walk, path, leaf, List.forall_mem_cons]
    cases hnode : fetch content root with
    | ok node =>
      obtain ⟨hroot, rfl⟩ := fetch_eq_ok_iff.mp hnode
      rw [ok_bind, ih, and_assoc]
      exact (and_iff_right hroot).symm
    | error e =>
      constructor
      · intro hok
        cases hok
      · rintro ⟨⟨hroot, -⟩, -⟩
        have hok := fetch_eq_ok_iff.mpr ⟨hroot, rfl⟩
        rw [hnode] at hok
        cases hok

/-- Whoever looks up a data block has looked up the root. -/
theorem fetch_walk (level root k : Nat) :
    (do let _ ← fetch content root; walk content level root k) = walk content level root k := by
  cases level with
  | zero =>
    rw [walk]
    cases fetch content root <;> rfl
  | succ level =>
    rw [walk]
    cases fetch content root <;> rfl

theorem fetch_row {level root start : Nat} {α : Type} (h : 0 < count)
    (f : List Block → Except DiskError α) :
    (do let _ ← fetch content root; row (walk content level root) count start >>= f) =
      row (walk content level root) count start >>= f := by
  obtain ⟨count, rfl⟩ := Nat.exists_eq_succ_of_ne_zero (Nat.ne_of_gt h)
  rw [Nat.succ_eq_add_one, row, ← fetch_walk]
  cases fetch content root <;> rfl

/-- How many data blocks a read of `len` bytes from block number `start` on takes in. -/
def covered (level len start : Nat) : Nat := min ((len + 511) / 512) (spanOf level - start)

theorem covered_zero (level start : Nat) : covered level 0 start = 0 := Nat.zero_min _

theorem lt_covered_iff {level len start k : Nat} :
    k < covered level len start ↔ k * 512 < len ∧ start + k < spanOf level := by
  unfold covered
  omega

/-- Looks up the root, and then one by one the data blocks that a read takes in. -/
def lookUp (content : Nat → Except DiskError Block) (level root len start : Nat) :
    Except DiskError ByteArray := do
  let _ ← fetch content root
  let rows ← row (walk content level root) (covered level len start) start
  pure (spell rows len)

end Tree

/-! ## Reading -/

open Diskette.Tree

theorem readNode_ends (h : ReadsAs s content) (root : Nat) :
    Ends (readNode root) s fun r s' => ReadsAs s' content ∧ r = fetch content root := by
  unfold readNode fetch
  split
  · exact ⟨h, rfl⟩
  · exact h.read_ends root

/-- What a read of a data block returns is the bytes of the block, whatever is asked for. -/
private theorem spell_block (block : Block) (len : Nat) :
    slice block.data 0 len ++ zeros (len - 512) = spell [block] len := by
  have hslice : (slice block.data 0 len).size = min len 512 := by
    rw [size_slice, block.size_data, Nat.zero_add, Nat.sub_zero]
  have hsize : (slice block.data 0 len ++ zeros (len - 512)).size = len := by
    rw [ByteArray.size_append, hslice, size_zeros]
    omega
  refine ext_byteAt (hsize.trans (size_tabulate ..).symm) fun i hi => ?_
  rw [hsize] at hi
  rw [(spells_spell [block] len).byte_eq hi, byteAt_append, hslice]
  split
  · next hlt =>
    rw [byteAt_slice, if_pos hi, Nat.zero_add, Nat.div_eq_of_lt (by omega),
      Nat.mod_eq_of_lt (by omega)]
    rfl
  · next hle =>
    rw [byteAt_zeros, List.getD_eq_default _ _ (Nat.div_pos (by omega) (by decide)),
      Bytes.byte_zero]

theorem readLeaf_ends (h : ReadsAs s content) (root len : Nat) :
    Ends (readLeaf root len) s fun r s' => ReadsAs s' content ∧ r = lookUp content 0 root len 0 := by
  have hlookUp {block : Block} (hfetch : fetch content root = .ok block) :
      lookUp content 0 root len 0 = .ok (spell [block] len) := by
    rw [lookUp, hfetch, ok_bind]
    by_cases hlen : len = 0
    · subst hlen
      rw [covered_zero, row, pure_bind, spell_zero, spell_zero]
      rfl
    -- One data block is all that a leaf covers, and then it is the root that is walked to.
    · have hone : covered 0 len 0 = 1 := by
        unfold covered spanOf
        omega
      rw [hone, row, walk, hfetch]
      simp only [ok_bind, row, pure_bind]
      rfl
  unfold readLeaf
  by_cases hroot : root = 0
  · have hfetch : fetch content root = .ok (Bytes.zero 512) := if_pos hroot
    rw [if_pos hroot, hlookUp hfetch]
    refine ⟨h, congrArg Except.ok ((spells_zeros len).eq_spell fun k _ => ?_)⟩
    cases k <;> rfl
  · rw [if_neg hroot, ends_bind]
    apply (h.read_ends root).mono
    rintro r s' ⟨hs, hr⟩
    have hfetch : fetch content root = r := (if_neg hroot).trans hr.symm
    cases r with
    | ok block =>
      rw [hlookUp hfetch]
      exact ⟨hs, congrArg Except.ok (spell_block block len)⟩
    | error e =>
      refine ⟨hs, ?_⟩
      rw [lookUp, hfetch]
      rfl

/-- Looks up data block number `k` from a node that has been read. -/
private def walkNode (content : Nat → Except DiskError Block) (level : Nat) (node : Block)
    (k : Nat) : Except DiskError Block :=
  walk content level (Node.pointer node (k / spanOf level)) (k % spanOf level)

private theorem walkNode_child {level index k : Nat} {node : Block} (h : k < spanOf level) :
    walkNode content level node (index * spanOf level + k) =
      walk content level (Node.pointer node index) k := by
  rw [walkNode, Nat.mul_comm, Nat.mul_add_div (spanOf_pos level), Nat.mul_add_mod,
    Nat.div_eq_of_lt h, Nat.mod_eq_of_lt h, Nat.add_zero]

/-- Looks up the data blocks that a read takes in, from a node that has been read. -/
private def lookUpNode (content : Nat → Except DiskError Block) (level : Nat) (node : Block)
    (len start : Nat) : Except DiskError ByteArray := do
  let rows ← row (walkNode content level node) (covered (level + 1) len start) start
  pure (spell rows len)

private theorem lookUpNode_of_covered {level len start : Nat} {node : Block}
    (h : covered (level + 1) len start = 0) :
    lookUpNode content level node len start = .ok (zeros len) := by
  rw [lookUpNode, h, row, pure_bind, spell_nil]
  rfl

section

variable {level index len offset within taken next : Nat} (hindex : index < 256) (hlen : len ≠ 0)
  (hwithin : offset / 512 % spanOf level = within)
  (htaken : min ((spanOf level - within) * 512) len = taken)
  (hnext : (offset + taken) / 512 % spanOf level = next)

include hindex hlen hwithin htaken hnext

/-- What a read takes in of one child, from data block `within` of it on, and what it leaves for the
children after it. -/
private theorem covered_children :
    0 < covered level taken within ∧ covered level taken within ≤ spanOf level - within ∧
      covered (level + 1) len (index * spanOf level + within) =
        covered level taken within +
          covered (level + 1) (len - taken) ((index + 1) * spanOf level + next) ∧
      (taken = len ∨ taken = covered level taken within * 512 ∧
        index * spanOf level + within + covered level taken within =
          (index + 1) * spanOf level + next) := by
  have hlt : within < spanOf level := hwithin ▸ Nat.mod_lt _ (spanOf_pos level)
  have hle : (index + 1) * spanOf level ≤ 256 * spanOf level := Nat.mul_le_mul_right _ hindex
  rw [Nat.succ_mul] at hle ⊢
  simp only [covered, show spanOf (level + 1) = 256 * spanOf level from rfl]
  rcases Nat.le_total len ((spanOf level - within) * 512) with h | h
  · rw [Nat.min_eq_right h] at htaken
    omega
  · -- The read goes on where the next child starts.
    have hzero : next = 0 := by
      have hdiv : (offset + taken) / 512 = offset / 512 + (spanOf level - within) := by omega
      have hsum : offset / 512 + (spanOf level - within) =
          spanOf level * (offset / 512 / spanOf level + 1) := by
        have := Nat.div_add_mod (offset / 512) (spanOf level)
        rw [Nat.mul_add_one]
        omega
      rw [← hnext, hdiv, hsum, Nat.mul_mod_right]
    omega

/-- The data blocks that a read takes in are those of the first child of the node, and then those of
the children after it. -/
private theorem lookUpNode_child {node : Block} :
    lookUpNode content level node len (index * spanOf level + within) = (do
      let piece ← lookUp content level (Node.pointer node index) taken within
      let rest ← lookUpNode content level node (len - taken) ((index + 1) * spanOf level + next)
      pure (piece ++ rest)) := by
  obtain ⟨hsome, hfits, hsplit, hrest⟩ := covered_children hindex hlen hwithin htaken hnext
  have hfirst : row (walkNode content level node) (covered level taken within)
      (index * spanOf level + within) =
        row (walk content level (Node.pointer node index)) (covered level taken within) within :=
    row_congr fun k hk => by
      rw [Nat.add_assoc]
      exact walkNode_child (Nat.add_lt_of_lt_sub' (Nat.lt_of_lt_of_le hk hfits))
  rw [lookUpNode, hsplit, row_add, hfirst, lookUp, fetch_row hsome]
  simp only [lookUpNode, bind_assoc, pure_bind]
  cases hrows : row (walk content level (Node.pointer node index)) (covered level taken within)
      within with
  | error e => rfl
  | ok rows =>
    have hlength := (of_row_eq_ok hrows).1
    simp only [ok_bind]
    rcases hrest with rfl | ⟨hwhole, hstart⟩
    · simp only [Nat.sub_self, covered_zero, row, pure_bind, spell_zero, List.append_nil,
        ByteArray.append_empty]
    · rw [hstart]
      refine bind_congr fun rest => congrArg pure ?_
      have hspell := spell_append rows rest (len - taken)
      rw [hlength, ← hwhole, Nat.add_sub_cancel' (htaken ▸ Nat.min_le_right ..)] at hspell
      exact hspell.symm

end

omit [BlockStore κ] in
/-- The subtrees of a node are read one after the other, each of them as it is by itself. -/
private theorem readChildren_ends {level : Nat} {node : Block}
    {child : (root len offset : Nat) → Action κ ByteArray} {Reads : κ → Prop}
    (hchild : ∀ {s : κ}, Reads s → ∀ root len offset,
      Ends (child root len offset) s fun r s' => Reads s' ∧
        r = lookUp content level root len (offset / 512 % spanOf level)) (count : Nat) :
    ∀ {s : κ} {index : Nat} (len offset : Nat) (acc : ByteArray), Reads s → index + count = 256 →
      Ends (readChildren child (spanOf level) node count index len offset acc) s fun r s' =>
        Reads s' ∧ r = (do
          let bytes ← lookUpNode content level node len
            (index * spanOf level + offset / 512 % spanOf level)
          pure (acc ++ bytes)) := by
  -- On the pointers that are left. A read that fails does so here and in the look-up at the same
  -- child.
  induction count with
  | zero =>
    intro s index len offset acc h hindex
    obtain rfl : index = 256 := hindex
    have hnone : covered (level + 1) len (256 * spanOf level + offset / 512 % spanOf level) = 0 := by
      unfold covered
      rw [spanOf]
      omega
    rw [lookUpNode_of_covered hnone]
    exact ⟨h, rfl⟩
  | succ count ih =>
    intro s index len offset acc h hindex
    by_cases hlen : len = 0
    · subst hlen
      rw [readChildren, if_pos rfl, lookUpNode_of_covered (covered_zero ..)]
      exact ⟨h, congrArg Except.ok ByteArray.append_empty.symm⟩
    · rw [readChildren, if_neg hlen, lookUpNode_child (show index < 256 by omega) hlen rfl rfl rfl]
      apply (hchild h _ _ _).bind
      · rintro piece s₁ ⟨h₁, hpiece⟩
        rw [← hpiece]
        apply (ih _ _ (acc ++ piece) h₁ (show index + 1 + count = 256 by omega)).mono
        rintro r s₂ ⟨h₂, hr⟩
        refine ⟨h₂, hr.trans ?_⟩
        simp only [ok_bind, bind_assoc, pure_bind, ByteArray.append_assoc]
      · rintro e s₁ ⟨h₁, hpiece⟩
        rw [← hpiece]
        exact ⟨h₁, rfl⟩

private theorem lookUp_succ {level root len start : Nat} {node : Block}
    (hnode : fetch content root = .ok node) :
    lookUp content (level + 1) root len start = lookUpNode content level node len start := by
  have hwalk (k : Nat) : walk content (level + 1) root k = walkNode content level node k := by
    rw [walk, hnode]
    rfl
  rw [lookUp, hnode, ok_bind, row_congr fun k _ => hwalk (start + k)]
  rfl

/-- Reading a tree is looking up its root, and then one by one the data blocks that the read takes
in. -/
theorem readIndex_ends (level : Nat) :
    ∀ {s : κ}, ReadsAs s content → ∀ root len offset,
      Ends (readIndex level root len offset) s fun r s' => ReadsAs s' content ∧
        r = lookUp content level root len (offset / 512 % spanOf level) := by
  induction level with
  | zero =>
    intro s h root len offset
    rw [spanOf, Nat.mod_one]
    exact readLeaf_ends h root len
  | succ level ih =>
    intro s h root len offset
    rw [readIndex]
    apply (readNode_ends h root).bind
    · rintro node s₁ ⟨h₁, hnode⟩
      have hindex : offset / (512 * spanOf level) % 256 < 256 := Nat.mod_lt _ (by decide)
      have hstart : offset / (512 * spanOf level) % 256 * spanOf level +
          offset / 512 % spanOf level = offset / 512 % spanOf (level + 1) := by
        rw [spanOf, Nat.mul_comm 256, Nat.mod_mul, Nat.div_div_eq_div_mul, Nat.add_comm,
          Nat.mul_comm (spanOf level)]
      apply (readChildren_ends ih _ len offset _ h₁ (Nat.add_sub_cancel' hindex.le)).mono
      rintro r s₂ ⟨h₂, hr⟩
      refine ⟨h₂, hr.trans ?_⟩
      rw [hstart, lookUp_succ hnode.symm]
      simp only [ByteArray.empty_append, bind_pure]
    · rintro e s₁ ⟨h₁, hnode⟩
      refine ⟨h₁, ?_⟩
      rw [lookUp, ← hnode]
      rfl

/-- Reads a range in parts: some blocks, some more, and so on, and then `len` bytes. -/
def readParts (level root : Nat) : (parts : List Nat) → (len offset : Nat) → Action κ ByteArray
  | [], len, offset => readIndex level root len offset
  | blocks :: parts, len, offset => do
    let head ← readIndex level root (blocks * 512) offset
    let rest ← readParts level root parts len (offset + blocks * 512)
    pure (head ++ rest)

/-- Some blocks and what is after them, if that starts under the root. -/
theorem lookUp_add {level root blocks len start : Nat} (h : start + blocks ≤ spanOf level) :
    lookUp content level root (blocks * 512 + len) start = (do
      let head ← lookUp content level root (blocks * 512) start
      let rest ← lookUp content level root len (start + blocks)
      pure (head ++ rest)) := by
  have hhead : covered level (blocks * 512) start = blocks := by
    unfold covered
    omega
  have hsum : covered level (blocks * 512 + len) start =
      blocks + covered level len (start + blocks) := by
    unfold covered
    omega
  rw [lookUp, lookUp, lookUp, hsum, hhead, row_add]
  cases fetch content root with
  | error e => rfl
  | ok node =>
    simp only [ok_bind, bind_assoc, pure_bind]
    cases hrows : row (walk content level root) blocks start with
    | error e => rfl
    | ok rows =>
      simp only [ok_bind]
      refine bind_congr fun rest => congrArg pure ?_
      rw [← (of_row_eq_ok hrows).1, spell_append]

theorem readParts_ends {level root len : Nat} (parts : List Nat) :
    ∀ {s : κ}, ReadsAs s content → ∀ offset, offset / 512 + parts.sum < spanOf level →
      Ends (readParts level root parts len offset) s fun r s' => ReadsAs s' content ∧
        r = lookUp content level root (parts.sum * 512 + len) (offset / 512) := by
  -- Each part starts on a block, where the part before it ended.
  induction parts with
  | nil =>
    intro s h offset hstart
    have hmod : offset / 512 % spanOf level = offset / 512 := Nat.mod_eq_of_lt hstart
    have hread := readIndex_ends level h root len offset
    rw [hmod] at hread
    rw [List.sum_nil, Nat.zero_mul, Nat.zero_add]
    exact hread
  | cons blocks parts ih =>
    intro s h offset hstart
    rw [List.sum_cons] at hstart ⊢
    have hmod : offset / 512 % spanOf level = offset / 512 := Nat.mod_eq_of_lt (by omega)
    have hdiv : (offset + blocks * 512) / 512 = offset / 512 + blocks := by omega
    rw [Nat.add_mul, Nat.add_assoc, lookUp_add (by omega)]
    apply (readIndex_ends level h root (blocks * 512) offset).bind
    · rintro head s₁ ⟨h₁, hhead⟩
      rw [hmod] at hhead
      rw [← hhead]
      have hrest := ih h₁ (offset + blocks * 512) (by omega)
      rw [hdiv] at hrest
      apply hrest.bind
      · rintro rest s₂ ⟨h₂, hrest⟩
        rw [← hrest]
        exact ⟨h₂, rfl⟩
      · rintro e s₂ ⟨h₂, hrest⟩
        rw [← hrest]
        exact ⟨h₂, rfl⟩
    · rintro e s₁ ⟨h₁, hhead⟩
      rw [hmod] at hhead
      rw [← hhead]
      exact ⟨h₁, rfl⟩

theorem of_lookUp_eq_ok {level root len start : Nat} {bytes : ByteArray}
    (h : lookUp content level root len start = .ok bytes) :
    Open content root ∧ ∃ rows,
      row (walk content level root) (covered level len start) start = .ok rows ∧
        bytes = spell rows len := by
  rw [lookUp] at h
  cases hnode : fetch content root with
  | error e =>
    rw [hnode] at h
    cases h
  | ok node =>
    rw [hnode, ok_bind] at h
    cases hrows : row (walk content level root) (covered level len start) start with
    | error e =>
      rw [hrows] at h
      cases h
    | ok rows =>
      rw [hrows] at h
      cases h
      exact ⟨(fetch_eq_ok_iff.mp hnode).1, rows, rfl, rfl⟩

/-- Whether a data block can be looked up is whether nothing is in the way to it. -/
theorem lookUp_isOk_iff {level root len start : Nat} :
    (∃ bytes, lookUp content level root len start = .ok bytes) ↔
      Open content root ∧ ∀ k, k * 512 < len → start + k < spanOf level →
        ∀ pointer ∈ path (known content) level root (start + k), Open content pointer := by
  constructor
  · rintro ⟨bytes, h⟩
    obtain ⟨hroot, rows, hrows, -⟩ := of_lookUp_eq_ok h
    refine ⟨hroot, fun k hlen hspan => ?_⟩
    exact (walk_eq_ok_iff.mp ((of_row_eq_ok hrows).2 k (lt_covered_iff.mpr ⟨hlen, hspan⟩))).1
  · rintro ⟨hroot, hpaths⟩
    have hwalk (k : Nat) (hk : k < covered level len start) :
        walk content level root (start + k) = .ok (leaf (known content) level root (start + k)) :=
      walk_eq_ok_iff.mpr ⟨hpaths k (lt_covered_iff.mp hk).1 (lt_covered_iff.mp hk).2, rfl⟩
    obtain ⟨rows, hrows⟩ := row_eq_ok hwalk
    refine ⟨spell rows len, ?_⟩
    rw [lookUp, fetch_eq_ok_iff.mpr ⟨hroot, rfl⟩, ok_bind, hrows]
    rfl

theorem spells_of_lookUp {level root len start : Nat} {bytes : ByteArray}
    (h : lookUp content level root len start = .ok bytes) :
    Spells bytes len fun k =>
      if start + k < spanOf level then leaf (known content) level root (start + k)
      else Bytes.zero 512 := by
  obtain ⟨-, rows, hrows, rfl⟩ := of_lookUp_eq_ok h
  obtain ⟨hlength, hget⟩ := of_row_eq_ok hrows
  refine (spells_spell rows len).congr fun k hlen => ?_
  split
  · next hspan => exact (walk_eq_ok_iff.mp (hget k (lt_covered_iff.mpr ⟨hlen, hspan⟩))).2.symm
  · next hspan =>
    have hpast : ¬ k < covered level len start := fun hk => hspan (lt_covered_iff.mp hk).2
    rw [List.getD_eq_default _ _ (by omega)]

/-- A tree is read if and only if no pointer is in the way that stands for a block that cannot be
read. What is read then is the data blocks one after the other, with zeros past the last one under the
root. Reading a range in one go is reading it in parts. -/
theorem readIndex_flat (h : ReadsAs s content) {level root len offset : Nat}
    (hstart : offset / 512 < 256 ^ level) :
    ((∃ bytes, (readIndex level root len offset).outcome s = .ok bytes) ↔
      Open content root ∧ ∀ k, k * 512 < len → offset / 512 + k < 256 ^ level →
        ∀ pointer ∈ path (known content) level root (offset / 512 + k), Open content pointer) ∧
    (∀ bytes, (readIndex level root len offset).outcome s = .ok bytes →
      Spells bytes len fun k =>
        if offset / 512 + k < 256 ^ level then leaf (known content) level root (offset / 512 + k)
        else Bytes.zero 512) ∧
    ∀ parts rest, len = parts.sum * 512 + rest → offset / 512 + parts.sum < 256 ^ level →
      (readParts level root parts rest offset).outcome s =
        (readIndex level root len offset).outcome s := by
  have hread := (ends_iff.mp (readIndex_ends level h root len offset)).2
  rw [← spanOf_eq_pow] at hstart ⊢
  rw [Nat.mod_eq_of_lt hstart] at hread
  rw [hread]
  refine ⟨lookUp_isOk_iff, fun bytes => spells_of_lookUp, fun parts rest hlen hparts => ?_⟩
  rw [hlen]
  exact (ends_iff.mp (readParts_ends parts h offset hparts)).2

/-- A sapling with a hole and with a block that is not there, in memory: the data blocks before the
latter can be read. -/
theorem readIndex_flat_memory :
    let node := Node.pack #[5, 0, 300]
    let memory : Memory := ⟨8, Function.update (fun _ => Bytes.zero 512) 2 node⟩
    let content := fun block =>
      if block < 8 then .ok (memory.blocks block) else .error (.blockOutOfRange block 8)
    ReadsAs memory content ∧ 0 / 512 < 256 ^ 1 ∧
      (∃ bytes, (readIndex 1 2 1024 0).outcome memory = .ok bytes) ∧
      ¬ ∃ bytes, (readIndex 1 2 1025 0).outcome memory = .ok bytes := by
  intro node memory content
  have h : ReadsAs memory content := (Memory.exactStore 8).readsAs ⟨rfl, rfl⟩
  have hnode : target (known content) 2 = node := rfl
  have hpath (k : Nat) (hk : k < 256) (hp : (#[5, 0, 300][k]?).getD 0 < 0x10000) :
      path (known content) 1 2 k = [2, (#[5, 0, 300][k]?).getD 0] := by
    rw [path, path, hnode, spanOf, Nat.div_one, Node.pointer_pack hk hp]
  refine ⟨h, by decide, ?_, fun hread => ?_⟩
  · have hopen (pointer : Nat) (hp : pointer < 8) : Open content pointer := fun _ => ⟨_, if_pos hp⟩
    refine (readIndex_flat h (by decide)).1.mpr ⟨hopen 2 (by decide), fun k hk _ pointer hp => ?_⟩
    rw [Nat.zero_div, Nat.zero_add] at hp
    obtain rfl | rfl : k = 0 ∨ k = 1 := by omega
    · rw [hpath 0 (by decide) (by decide)] at hp
      exact hopen pointer (by revert pointer; decide)
    · rw [hpath 1 (by decide) (by decide)] at hp
      exact hopen pointer (by revert pointer; decide)
  · have hopen := ((readIndex_flat h (by decide)).1.mp hread).2 2 (by decide) (by decide) 300 (by
      rw [Nat.zero_div, Nat.zero_add, hpath 2 (by decide) (by decide)]
      decide)
    obtain ⟨data, hdata⟩ := hopen (by decide)
    cases hdata

end Diskette
