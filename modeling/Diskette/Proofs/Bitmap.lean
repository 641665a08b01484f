import Diskette.Bitmap
import Mathlib.Data.Finset.Card
import Mathlib.Data.Finset.Range
import Mathlib.Data.List.Dedup

/-!
# What allocating and releasing do

* `Took`: some free blocks were allocated, each of them once, and no other.
* `took_alloc`: what is allocated was free.
* `Took.freeBlocks_add`: how many blocks are left.
* `Took.releaseAll`, `Took.releaseAll_append`: what was taken is given back, all of it or a part.
-/

namespace Diskette.Bitmap

variable {bitmap before middle after : Bitmap} {block : Nat} {taken : List Nat}

/-! ## One block -/

theorem lt_of_isFree (h : bitmap.isFree block = true) : block < bitmap.blocks := by
  by_contra hlt
  have hnone : bitmap.bits[block]? = none := Array.getElem?_eq_none (Nat.not_lt.mp hlt)
  simp [isFree, hnone] at h

theorem isFree_of_next? (h : bitmap.next? = some block) : bitmap.isFree block = true := by
  have h : (firstFree? bitmap.bits (bitmap.bits.size - bitmap.cursor * 8) (bitmap.cursor * 8) <|>
      firstFree? bitmap.bits (bitmap.cursor * 8) 0) = some block := h
  cases hf : firstFree? bitmap.bits (bitmap.bits.size - bitmap.cursor * 8) (bitmap.cursor * 8) with
  | some found =>
    rw [hf] at h
    obtain rfl : found = block := Option.some.inj h
    exact (firstFree?_eq_some_iff.mp hf).2.2.1
  | none =>
    rw [hf] at h
    exact (firstFree?_eq_some_iff.mp h).2.2.1

theorem isFree_setIfInBounds (bits : Array Bool) (cursor block : Nat) (value : Bool) (other : Nat) :
    isFree ⟨bits.setIfInBounds block value, cursor⟩ other =
      if other = block ∧ block < bits.size then value else isFree ⟨bits, cursor⟩ other := by
  unfold isFree
  rw [Array.getElem?_setIfInBounds]
  by_cases he : block = other
  · subst he
    by_cases hlt : block < bits.size
    · simp [hlt]
    · simp [hlt]
  · simp [he, Ne.symm he]

/-! ## Allocating -/

/-- The blocks in `taken` were free, each of them was allocated once, and nothing else was
changed. -/
structure Took (before : Bitmap) (taken : List Nat) (after : Bitmap) : Prop where
  blocks_eq : after.blocks = before.blocks
  nodup : taken.Nodup
  free {block : Nat} (h : block ∈ taken) : before.isFree block = true
  isFree_eq (block : Nat) : after.isFree block = (before.isFree block && decide (block ∉ taken))

theorem Took.refl (bitmap : Bitmap) : Took bitmap [] bitmap :=
  ⟨rfl, .nil, nofun, fun _ => by simp⟩

theorem Took.isFree_of_isFree (h : Took before taken after) (hf : after.isFree block = true) :
    before.isFree block = true ∧ block ∉ taken := by
  rw [h.isFree_eq] at hf
  simpa using hf

theorem Took.trans {taken' : List Nat} (h : Took before taken middle)
    (h' : Took middle taken' after) : Took before (taken' ++ taken) after where
  blocks_eq := h'.blocks_eq.trans h.blocks_eq
  nodup := by
    refine List.nodup_append.mpr ⟨h'.nodup, h.nodup, ?_⟩
    rintro a ha b hb rfl
    exact (h.isFree_of_isFree (h'.free ha)).2 hb
  free hb := by
    rcases List.mem_append.mp hb with hb | hb
    · exact (h.isFree_of_isFree (h'.free hb)).1
    · exact h.free hb
  isFree_eq block := by
    rw [h'.isFree_eq, h.isFree_eq]
    by_cases hb : block ∈ taken <;> by_cases hb' : block ∈ taken' <;> simp [hb, hb']

theorem Took.perm {taken' : List Nat} (h : Took before taken after) (hp : taken'.Perm taken) :
    Took before taken' after where
  blocks_eq := h.blocks_eq
  nodup := hp.nodup_iff.mpr h.nodup
  free hb := h.free (hp.mem_iff.mp hb)
  isFree_eq block := by
    rw [h.isFree_eq]
    simp only [hp.mem_iff]

theorem Took.isFree_of_mem (h : Took before taken after) (hb : block ∈ taken) :
    after.isFree block = false := by
  rw [h.isFree_eq, decide_eq_false (not_not.mpr hb), Bool.and_false]

theorem Took.isFree_eq_false (h : Took before taken after) (hb : before.isFree block = false) :
    after.isFree block = false := by
  rw [h.isFree_eq, hb, Bool.false_and]

/-- What is allocated was free. -/
theorem took_alloc (h : bitmap.alloc = (some block, after)) : Took bitmap [block] after := by
  unfold alloc at h
  cases hn : bitmap.next? with
  | none =>
    rw [hn] at h
    cases h
  | some found =>
    rw [hn] at h
    cases h
    have hfree := isFree_of_next? hn
    refine ⟨Array.size_setIfInBounds, List.nodup_singleton _, fun hb => ?_, fun other => ?_⟩
    · rwa [List.mem_singleton.mp hb]
    · have hlt : block < bitmap.bits.size := lt_of_isFree hfree
      rw [isFree_setIfInBounds]
      by_cases he : other = block
      · simp [he, hlt]
      · simp [he, isFree]

theorem fst_alloc (bitmap : Bitmap) : bitmap.alloc.1 = bitmap.next? := by
  unfold alloc
  cases bitmap.next? <;> rfl

/-- The next search starts in the group of eight blocks in which the last one ended. -/
theorem cursor_alloc (h : bitmap.alloc = (some block, after)) : after.cursor = block / 8 := by
  unfold alloc at h
  split at h
  · cases h
    rfl
  · cases h

theorem alloc_eq_none (h : bitmap.alloc = (none, after)) : after = bitmap := by
  unfold alloc at h
  cases hn : bitmap.next? with
  | none =>
    rw [hn] at h
    cases h
    rfl
  | some found =>
    rw [hn] at h
    cases h

theorem took_allocAt (h : bitmap.isFree block = true) :
    Took bitmap [block] (bitmap.allocAt block).2 := by
  have hlt : block < bitmap.bits.size := lt_of_isFree h
  rw [allocAt, if_pos h]
  refine ⟨Array.size_setIfInBounds, List.nodup_singleton _, fun hb => ?_, fun other => ?_⟩
  · rwa [List.mem_singleton.mp hb]
  · rw [isFree_setIfInBounds]
    by_cases he : other = block
    · simp [he, hlt]
    · simp [he, isFree]

/-! ## Counting -/

private theorem count_true_eq_card (bits : List Bool) :
    bits.count true =
      ((Finset.range bits.length).filter fun block => (bits[block]?).getD false = true).card := by
  induction bits using List.reverseRecOn with
  | nil => rfl
  | append_singleton bits bit ih =>
    have hsame : (Finset.range bits.length).filter
          (fun block => ((bits ++ [bit])[block]?).getD false = true) =
        (Finset.range bits.length).filter fun block => (bits[block]?).getD false = true := by
      refine Finset.filter_congr fun block hb => ?_
      rw [List.getElem?_append_left (Finset.mem_range.mp hb)]
    rw [List.count_append, ih, List.length_append, List.length_singleton, Finset.range_add_one,
      Finset.filter_insert, hsame]
    cases bit with
    | true =>
      rw [if_pos (by simp), Finset.card_insert_of_notMem (by simp)]
      rfl
    | false =>
      rw [if_neg (by simp)]
      rfl

theorem freeBlocks_eq_card (bitmap : Bitmap) :
    bitmap.freeBlocks =
      ((Finset.range bitmap.blocks).filter fun block => bitmap.isFree block = true).card := by
  obtain ⟨⟨bits⟩, cursor⟩ := bitmap
  simp only [freeBlocks, blocks, isFree, List.count_toArray, List.size_toArray,
    List.getElem?_toArray]
  exact count_true_eq_card bits

/-- The same blocks are free. -/
structure Alike (before after : Bitmap) : Prop where
  blocks_eq : after.blocks = before.blocks
  isFree_eq (block : Nat) : after.isFree block = before.isFree block

theorem Alike.refl (bitmap : Bitmap) : Alike bitmap bitmap := ⟨rfl, fun _ => rfl⟩

theorem Alike.bits_eq (h : Alike before after) : after.bits = before.bits := by
  refine Array.ext h.blocks_eq fun i hi hi' => ?_
  have hfree : (after.bits[i]?).getD false = (before.bits[i]?).getD false := h.isFree_eq i
  rwa [Array.getElem?_eq_getElem hi, Array.getElem?_eq_getElem hi'] at hfree

/-- Bitmaps with the same free blocks differ only in where the next one is looked for. -/
theorem Alike.eq_of_cursor (h : Alike before after) (hcursor : after.cursor = before.cursor) :
    after = before := by
  have hmk : after = ⟨before.bits, before.cursor⟩ := by rw [← h.bits_eq, ← hcursor]
  exact hmk

theorem Took.alike {after' : Bitmap} (h : Took before taken after) (ha : Alike after after') :
    Took before taken after' where
  blocks_eq := ha.blocks_eq.trans h.blocks_eq
  nodup := h.nodup
  free := h.free
  isFree_eq block := (ha.isFree_eq block).trans (h.isFree_eq block)

/-- How many blocks are left. -/
theorem Took.freeBlocks_add (h : Took before taken after) :
    after.freeBlocks + taken.length = before.freeBlocks := by
  have hsub : taken.toFinset ⊆
      (Finset.range before.blocks).filter fun block => before.isFree block = true := by
    intro block hb
    have hfree := h.free (List.mem_toFinset.mp hb)
    simp [hfree, lt_of_isFree hfree]
  have hdiff : (Finset.range after.blocks).filter (fun block => after.isFree block = true) =
      ((Finset.range before.blocks).filter fun block => before.isFree block = true) \
        taken.toFinset := by
    ext block
    simp only [h.blocks_eq, h.isFree_eq, Finset.mem_filter, Finset.mem_sdiff, List.mem_toFinset,
      Bool.and_eq_true, decide_eq_true_eq]
    tauto
  rw [freeBlocks_eq_card, freeBlocks_eq_card, hdiff, ← List.toFinset_card_of_nodup h.nodup]
  exact Finset.card_sdiff_add_card_eq_card hsub

/-! ## Releasing -/

@[simp] theorem blocks_release (bitmap : Bitmap) (block : Nat) :
    (bitmap.release block).blocks = bitmap.blocks := Array.size_setIfInBounds

theorem isFree_release (bitmap : Bitmap) (block other : Nat) :
    (bitmap.release block).isFree other =
      (bitmap.isFree other || decide (other = block ∧ block < bitmap.blocks)) := by
  obtain ⟨bits, cursor⟩ := bitmap
  rw [release, isFree_setIfInBounds]
  by_cases h : other = block ∧ block < bits.size
  · simp [h, blocks]
  · rw [if_neg h]
    simp only [blocks]
    simp [h]

/-- Nothing happens to a block that is free or that the volume does not have. -/
theorem release_eq_self (h : bitmap.blocks ≤ block ∨ bitmap.isFree block = true) :
    bitmap.release block = bitmap := by
  obtain ⟨bits, cursor⟩ := bitmap
  refine congrArg (Bitmap.mk · cursor) (Array.ext Array.size_setIfInBounds fun i _ hi => ?_)
  rw [Array.getElem_setIfInBounds hi]
  split
  · next he =>
    subst he
    rcases h with h | h
    · exact absurd hi (Nat.not_lt.mpr h)
    · simpa [isFree, hi] using h.symm
  · rfl

/-- Releases the blocks of a list. -/
def releaseAll (blocks : List Nat) (bitmap : Bitmap) : Bitmap :=
  blocks.foldl (fun bitmap block => bitmap.release block) bitmap

theorem releaseAll_append (blocks blocks' : List Nat) (bitmap : Bitmap) :
    releaseAll (blocks ++ blocks') bitmap = releaseAll blocks' (releaseAll blocks bitmap) :=
  List.foldl_append

@[simp] theorem blocks_releaseAll (blocks : List Nat) (bitmap : Bitmap) :
    (releaseAll blocks bitmap).blocks = bitmap.blocks := by
  induction blocks generalizing bitmap with
  | nil => rfl
  | cons block rest ih => exact (ih _).trans (blocks_release ..)

@[simp] theorem cursor_releaseAll (blocks : List Nat) (bitmap : Bitmap) :
    (releaseAll blocks bitmap).cursor = bitmap.cursor := by
  induction blocks generalizing bitmap with
  | nil => rfl
  | cons block rest ih => exact ih _

theorem isFree_releaseAll (blocks : List Nat) (bitmap : Bitmap) (other : Nat) :
    (releaseAll blocks bitmap).isFree other =
      (bitmap.isFree other || decide (other ∈ blocks ∧ other < bitmap.blocks)) := by
  induction blocks generalizing bitmap with
  | nil => simp [releaseAll]
  | cons block rest ih =>
    have hstep : releaseAll (block :: rest) bitmap = releaseAll rest (bitmap.release block) := rfl
    rw [hstep, ih, isFree_release, blocks_release]
    by_cases he : other = block
    · subst he
      by_cases hlt : other < bitmap.blocks <;> simp [hlt]
    · simp [he]

/-- The blocks of a list that become free when they are released. -/
def returned (blocks : List Nat) (bitmap : Bitmap) : List Nat :=
  blocks.dedup.filter fun block => decide (block < bitmap.blocks) && !bitmap.isFree block

theorem mem_returned {blocks : List Nat} :
    block ∈ bitmap.returned blocks ↔
      block ∈ blocks ∧ block < bitmap.blocks ∧ bitmap.isFree block = false := by
  simp [returned]

theorem isFree_releaseAll_eq (blocks : List Nat) (bitmap : Bitmap) (other : Nat) :
    (releaseAll blocks bitmap).isFree other =
      (bitmap.isFree other || decide (other ∈ bitmap.returned blocks)) := by
  grind [isFree_releaseAll, mem_returned]

/-- Releasing blocks that are not free undoes an allocation of them. -/
theorem took_returned (blocks : List Nat) (bitmap : Bitmap) :
    Took (releaseAll blocks bitmap) (bitmap.returned blocks) bitmap where
  blocks_eq := (blocks_releaseAll ..).symm
  nodup := (List.nodup_dedup _).filter _
  free h := by grind [isFree_releaseAll, mem_returned]
  isFree_eq other := by grind [isFree_releaseAll, mem_returned]

theorem took_release (hb : block < bitmap.blocks) (hused : bitmap.isFree block = false) :
    Took (bitmap.release block) [block] bitmap := by
  have hreturned : bitmap.returned [block] = [block] := by simp [returned, hb, hused]
  exact hreturned ▸ took_returned [block] bitmap

/-- Releasing what was taken makes free what was free before. -/
theorem Took.releaseAll (h : Took before taken after) : Alike before (releaseAll taken after) where
  blocks_eq := (blocks_releaseAll ..).trans h.blocks_eq
  isFree_eq block := by
    rw [isFree_releaseAll, h.isFree_eq, h.blocks_eq]
    by_cases hb : block ∈ taken
    · have hfree := h.free hb
      simp [hb, hfree, lt_of_isFree hfree]
    · simp [hb]

/-- Releasing some of what was taken leaves the rest taken. -/
theorem Took.releaseAll_append {freed kept : List Nat} (h : Took before (freed ++ kept) after) :
    Took before kept (Bitmap.releaseAll freed after) where
  blocks_eq := (blocks_releaseAll ..).trans h.blocks_eq
  nodup := (List.nodup_append.mp h.nodup).2.1
  free hb := h.free (List.mem_append_right _ hb)
  isFree_eq block := by
    rw [isFree_releaseAll, h.isFree_eq, h.blocks_eq]
    by_cases hb : block ∈ freed
    · have hfree := h.free (List.mem_append_left _ hb)
      have hkept : block ∉ kept := fun hk => (List.nodup_append.mp h.nodup).2.2 _ hb _ hk rfl
      simp [hb, hkept, hfree, lt_of_isFree hfree]
    · simp [hb]

end Diskette.Bitmap
