import Diskette.Proofs.Bitmap.Packed
import Diskette.Proofs.Fork.Reading

/-!
# Bitmaps on a volume

A bitmap is stored in a row of blocks of the volume that it describes. What was stored is loaded
again, and storing it touches no other block.

* `write_ends`: a bitmap is stored.
* `run_load`: a stored bitmap is loaded.
* `reserved`: a new bitmap whose first blocks are taken.
-/

namespace Diskette.Bitmap

open Diskette.Action

/-! ## Storing and loading -/

section

variable {κ : Type} [BlockStore κ] {n start : Nat} {Holds : κ → (Nat → Block) → Prop}
  {s : κ} {c : Nat → Block} {bitmap : Bitmap}

/-- The bitmap is in the array, one block after the other from block `start` on. -/
def StoredAt (n start : Nat) (bitmap : Bitmap) (c : Nat → Block) : Prop :=
  ∀ i, i < storedBlocks bitmap.blocks → start + i < n ∧ c (start + i) = bitmap.storedBlock i

/-- Before the last block number nothing is cut off. -/
theorem storedAt_eq {i : Nat} (h : storedAt start i < n) (hn : n < 0x100000000) :
    storedAt start i = start + i := by
  unfold storedAt at h ⊢
  omega

theorem writeStored_ends (hS : ArrayStore n Holds) (hn : n < 0x100000000) (bitmap : Bitmap)
    (start count : Nat) :
    ∀ {s : κ} {c : Nat → Block} {i : Nat}, Holds s c →
      Ends (writeStored bitmap start count i) s fun r s' => ∃ c', Holds s' c' ∧
        (∀ block, block < start + i ∨ start + i + count ≤ block → c' block = c block) ∧
        (r = .ok () → ∀ k, i ≤ k → k < i + count →
          start + k < n ∧ c' (start + k) = bitmap.storedBlock k) := by
  induction count with
  | zero => exact fun {s c i} h => ⟨c, h, fun _ _ => rfl, fun _ k _ _ => by omega⟩
  | succ count ih =>
    intro s c i h
    have hlt : Ends (BlockStore.writeBlock (storedAt start i) (bitmap.storedBlock i)) s
        fun r _ => r = .ok () → storedAt start i < n :=
      ends_iff.mpr fun hr => hS.lt_of_write h (run_eq_ok_of_outcome hr)
    refine ((hS.write_ends h _ _).and hlt).bind ?_ fun e s' hs =>
      ⟨c, hs.1, fun _ _ => rfl, nofun⟩
    rintro ⟨⟩ s' ⟨hs', hi⟩
    have hat := storedAt_eq (hi rfl) hn
    rw [hat] at hi hs'
    refine (ih hs').mono ?_
    rintro r s'' ⟨c', hc', hother, hstored⟩
    refine ⟨c', hc', fun block hb => ?_, fun hr k hlo hhi => ?_⟩
    · rw [hother block (by omega), Function.update_of_ne (by omega)]
    · rcases Nat.eq_or_lt_of_le hlo with rfl | hlo
      · rw [hother _ (.inl (by omega)), Function.update_self]
        exact ⟨hi rfl, rfl⟩
      · exact hstored hr k hlo (by omega)

/-- A bitmap is stored, or else blocks are changed at most where it would be. -/
theorem write_ends (hS : ArrayStore n Holds) (hn : n < 0x100000000) (bitmap : Bitmap) (start : Nat)
    (h : Holds s c) :
    Ends (bitmap.write start) s fun r s' => ∃ c', Holds s' c' ∧
      (∀ block, block < start ∨ start + storedBlocks bitmap.blocks ≤ block → c' block = c block) ∧
      (r = .ok () → StoredAt n start bitmap c') := by
  refine (writeStored_ends hS hn bitmap start _ h).mono ?_
  rintro r s' ⟨c', hc', hother, hstored⟩
  exact ⟨c', hc', hother, fun hr k hk => hstored hr k (Nat.zero_le k) (by omega)⟩

/-- The bytes of a block are those of a row of one block. -/
theorem spells_block (block : Block) : Spells block.data (1 * 512) fun _ => block where
  size_eq := block.size_data
  byte_eq {i} hi := by
    rw [Nat.mod_eq_of_lt (by omega)]
    rfl

theorem run_readStored (hS : ArrayStore n Holds) (hn : n < 0x100000000) (start count : Nat) :
    ∀ {s : κ} {i : Nat} (acc : ByteArray), Holds s c →
      (∀ k, i ≤ k → k < i + count → start + k < n) →
      ∃ bytes s', (readStored start count i acc).run s = .ok (acc ++ bytes) s' ∧ Holds s' c ∧
        Spells bytes (count * 512) fun k => c (start + (i + k)) := by
  induction count with
  | zero =>
    intro s i acc h _
    refine ⟨ByteArray.empty, s, ?_, h, rfl, fun hi => by omega⟩
    rw [ByteArray.append_empty]
    rfl
  | succ count ih =>
    intro s i acc h hlt
    have hi : start + i < n := hlt i (Nat.le_refl i) (by omega)
    have hat : storedAt start i = start + i := by
      unfold storedAt
      omega
    obtain ⟨s₁, hread⟩ := hS.read_ok h hi
    have h₁ := ((hS.read_ends h _).of_ok hread).1
    obtain ⟨bytes, s₂, hrest, h₂, hspells⟩ := @ih s₁ (i + 1) (acc ++ (c (start + i)).data) h₁
      fun k hlo hhi => hlt k (by omega) (by omega)
    refine ⟨(c (start + i)).data ++ bytes, s₂, ?_, h₂, ?_⟩
    · rw [readStored, hat, run_bind_of_ok hread, hrest, ByteArray.append_assoc]
    · have hhead : Spells (c (start + i)).data (1 * 512) fun k => c (start + (i + k)) :=
        (spells_block _).congr fun k hk => by rw [show k = 0 by omega, Nat.add_zero]
      have hall := hhead.append (hspells.congr fun k _ => by rw [Nat.add_assoc])
      rwa [← Nat.add_mul, Nat.add_comm 1 count] at hall

/-- A stored bitmap is loaded. -/
theorem run_load (hS : ArrayStore n Holds) (hn : n < 0x100000000) (h : Holds s c)
    (hb : StoredAt n start bitmap c) :
    ∃ loaded s', (load start bitmap.blocks).run s = .ok loaded s' ∧ Holds s' c ∧
      bitmap.Alike loaded := by
  obtain ⟨bytes, s', hrun, hs', hspells⟩ := run_readStored hS hn start
    (storedBlocks bitmap.blocks) (i := 0) ByteArray.empty h fun k _ hk => (hb k (by omega)).1
  rw [ByteArray.empty_append] at hrun
  refine ⟨ofBytes bitmap.blocks bytes, s', ?_, hs', by simp [blocks, ofBytes], fun block => ?_⟩
  · rw [load, run_bind_of_ok hrun]
    rfl
  · by_cases hlt : block < bitmap.blocks
    · have hbyte : block / 8 < storedBlocks bitmap.blocks * 512 := by
        have := Packed.blocks_le_storedBlocks bitmap.blocks
        omega
      have hstored := (hb (block / 8 / 512) (by omega)).2
      have hbit := Packed.testBit_storedBlock bitmap (block / 8 / 512)
        (Nat.mod_lt (block / 8) (by decide : 512 > 0)) (Nat.mod_lt block (by decide : 8 > 0))
      rw [← hstored, show (block / 8 / 512 * 512 + block / 8 % 512) * 8 + block % 8 = block by
        omega] at hbit
      have hbitAt : bitAt bytes block = bitmap.isFree block := by
        rw [bitAt, hspells.byte_eq hbyte, Nat.zero_add]
        exact hbit
      simp [isFree, ofBytes, hlt, hbitAt]
    · have hused : bitmap.isFree block = false := by
        by_contra hfree
        exact hlt (lt_of_isFree (Bool.not_eq_false _ ▸ hfree))
      rw [hused]
      simp [isFree, ofBytes, hlt]

end

/-! ## Reserved blocks -/

/-- A bitmap of `blocks` blocks after the first `count` ones were asked for. -/
def reserved (blocks count : Nat) : Bitmap :=
  (List.range count).foldl (fun bitmap block => (bitmap.allocAt block).2) (freshly blocks)

theorem reserved_succ (blocks count : Nat) :
    reserved blocks (count + 1) = ((reserved blocks count).allocAt count).2 := by
  rw [reserved, List.range_succ, List.foldl_append]
  rfl

@[simp] theorem blocks_freshly (blocks : Nat) : (freshly blocks).blocks = blocks :=
  Array.size_replicate

@[simp] theorem freeBlocks_freshly (blocks : Nat) : (freshly blocks).freeBlocks = blocks := by
  simp [freshly, freeBlocks]

theorem isFree_allocAt (bitmap : Bitmap) (block other : Nat) :
    (bitmap.allocAt block).2.isFree other = (bitmap.isFree other && decide (other ≠ block)) := by
  cases hfree : bitmap.isFree block with
  | true =>
    rw [(took_allocAt hfree).isFree_eq]
    simp
  | false =>
    rw [allocAt, if_neg (Bool.eq_false_iff.mp hfree)]
    by_cases he : other = block
    · rw [he, hfree, Bool.false_and]
    · rw [decide_eq_true he, Bool.and_true]

theorem blocks_allocAt (bitmap : Bitmap) (block : Nat) :
    (bitmap.allocAt block).2.blocks = bitmap.blocks := by
  unfold allocAt
  split
  · exact Array.size_setIfInBounds
  · rfl

@[simp] theorem blocks_reserved (blocks count : Nat) : (reserved blocks count).blocks = blocks := by
  induction count with
  | zero => exact blocks_freshly blocks
  | succ count ih => rw [reserved_succ, blocks_allocAt, ih]

/-- Just the blocks from number `count` on are free. -/
theorem isFree_reserved (blocks count block : Nat) :
    (reserved blocks count).isFree block = decide (count ≤ block ∧ block < blocks) := by
  induction count with
  | zero =>
    rw [show reserved blocks 0 = freshly blocks from rfl, isFree_freshly]
    simp
  | succ count ih =>
    rw [reserved_succ, isFree_allocAt, ih, ← Bool.decide_and]
    congr 1
    exact propext ⟨fun h => by omega, fun h => by omega⟩

/-- The blocks that were asked for were allocated, as far as the volume has them. -/
theorem took_reserved {blocks count : Nat} (h : count ≤ blocks) :
    (freshly blocks).Took (List.range count) (reserved blocks count) where
  blocks_eq := (blocks_reserved ..).trans (blocks_freshly _).symm
  nodup := List.nodup_range
  free hb := by
    rw [isFree_freshly]
    exact decide_eq_true (Nat.lt_of_lt_of_le (List.mem_range.mp hb) h)
  isFree_eq block := by
    rw [isFree_reserved, isFree_freshly]
    simp [Bool.and_comm]

theorem freeBlocks_reserved {blocks count : Nat} (h : count ≤ blocks) :
    (reserved blocks count).freeBlocks + count = blocks := by
  have := (took_reserved h).freeBlocks_add
  rwa [List.length_range, freeBlocks_freshly] at this

end Diskette.Bitmap
