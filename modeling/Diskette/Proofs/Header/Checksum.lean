import Diskette.Header.DiskCopy
import Mathlib.Logic.ExistsUnique
import Mathlib.Tactic.ByContra

/-!
# The checksum of a DiskCopy 4.2 file

Each step of the checksum is one to one in the sum so far and in the word that is added. So two byte
strings that differ in one word have sums that differ from that word on, to the end.

* `toNat_wordAt`: a word is the number that its two bytes make.
* `addWord_left_injective`: one step loses nothing about the sum.
* `checksumFrom_inj`: neither do many, with the same words.
* `OneWordApart`: byte strings that differ in one word.
* `OneWordApart.checksum_ne`: they have different checksums.
-/

namespace Diskette.Header.DiskCopy

variable {a b : ByteArray} {offset : Nat} {sum sum' : UInt32}

/-- One step loses nothing about the sum. -/
theorem addWord_left_injective {word : UInt32} (h : addWord sum word = addWord sum' word) :
    sum = sum' := by
  -- A step treats the sum and the word alike.
  have hcomm (sum word : UInt32) : addWord sum word = addWord word sum := by
    unfold addWord
    rw [UInt32.add_comm]
  rw [hcomm, hcomm sum'] at h
  exact addWord_injective h

/-- A word is the number that its two bytes make. -/
theorem toNat_wordAt (data : ByteArray) (offset : Nat) :
    (wordAt data offset).toNat = beNat data offset 2 := by
  have hlow := (byteAt data (offset + 1)).toNat_lt
  have hhigh := (byteAt data offset).toNat_lt
  have hshift : ((byteAt data offset).toUInt32 <<< 8).toNat = (byteAt data offset).toNat <<< 8 := by
    rw [UInt32.toNat_shiftLeft, UInt8.toNat_toUInt32]
    refine Nat.mod_eq_of_lt ?_
    change (byteAt data offset).toNat <<< 8 < 2 ^ 32
    rw [Nat.shiftLeft_eq]
    omega
  rw [wordAt, UInt32.toNat_or, hshift, UInt8.toNat_toUInt32, ← Nat.shiftLeft_add_eq_or_of_lt hlow,
    Nat.shiftLeft_eq]
  simp only [beNat, Nat.add_zero]
  omega

theorem wordAt_of_size_le (h : a.size ≤ offset) : wordAt a offset = 0 := by
  rw [wordAt, byteAt_of_size_le h, byteAt_of_size_le (Nat.le_succ_of_le h)]
  rfl

/-- The same words make different sums of different sums. -/
theorem checksumFrom_inj {count : Nat}
    (h : ∀ k, k < count → wordAt b (offset + 2 * k) = wordAt a (offset + 2 * k)) :
    checksumFrom b count offset sum' = checksumFrom a count offset sum ↔ sum' = sum := by
  induction count generalizing offset sum sum' with
  | zero => rfl
  | succ count ih =>
    have hfirst : wordAt b offset = wordAt a offset := h 0 (Nat.succ_pos _)
    have hrest (k : Nat) (hk : k < count) :
        wordAt b (offset + 2 + 2 * k) = wordAt a (offset + 2 + 2 * k) := by
      rw [show offset + 2 + 2 * k = offset + 2 * (k + 1) by omega]
      exact h (k + 1) (Nat.succ_lt_succ hk)
    rw [checksumFrom, checksumFrom, ih hrest, hfirst]
    exact ⟨addWord_left_injective, congrArg (addWord · _)⟩

/-- Words of which one is another make another sum. -/
theorem checksumFrom_ne {count i : Nat} (hi : i < count)
    (hne : wordAt b (offset + 2 * i) ≠ wordAt a (offset + 2 * i))
    (h : ∀ k, k ≠ i → wordAt b (offset + 2 * k) = wordAt a (offset + 2 * k)) :
    checksumFrom b count offset sum ≠ checksumFrom a count offset sum := by
  induction count generalizing offset sum i with
  | zero => exact absurd hi (Nat.not_lt_zero i)
  | succ count ih =>
    have hshift (k : Nat) : offset + 2 * (k + 1) = offset + 2 + 2 * k := by omega
    rw [checksumFrom, checksumFrom]
    cases i with
    | zero =>
      -- The sums differ from here on, and all words behind are the same.
      rw [Ne, checksumFrom_inj fun k _ => by rw [← hshift]; exact h (k + 1) (Nat.succ_ne_zero k)]
      exact fun heq => hne (addWord_injective heq)
    | succ i =>
      have hfirst : wordAt b offset = wordAt a offset := h 0 (Nat.succ_ne_zero i).symm
      rw [hfirst]
      refine ih (Nat.lt_of_succ_lt_succ hi) (by rwa [← hshift]) fun k hk => ?_
      rw [← hshift]
      exact h (k + 1) fun heq => hk (Nat.succ.inj heq)

/-- Byte strings of one length that differ in one word. The last byte of an odd number of bytes is a
word with a zero behind it. -/
structure OneWordApart (a b : ByteArray) : Prop where
  size_eq : b.size = a.size
  word : ∃! i, wordAt b (2 * i) ≠ wordAt a (2 * i)

/-- The checksum detects a change of one word. -/
theorem OneWordApart.checksum_ne (h : OneWordApart a b) : checksum b ≠ checksum a := by
  obtain ⟨i, hne, hunique⟩ := h.word
  have hi : i < (a.size + 1) / 2 := by
    by_contra hle
    refine hne ?_
    rw [wordAt_of_size_le (by rw [h.size_eq]; omega), wordAt_of_size_le (by omega)]
  have hsame (k : Nat) (hk : k ≠ i) : wordAt b (2 * k) = wordAt a (2 * k) := by
    by_contra hother
    exact hk (hunique k hother)
  rw [checksum, checksum, h.size_eq]
  refine checksumFrom_ne hi ?_ fun k hk => ?_
  · rwa [Nat.zero_add]
  · rw [Nat.zero_add]
    exact hsame k hk

end Diskette.Header.DiskCopy
