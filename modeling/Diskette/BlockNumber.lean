import Diskette.Error

/-!
# Block numbers

A device of `n` blocks has the blocks `0, …, n - 1`.

* `checkBlock_eq_ok_iff`: the check passes exactly for those.
* `firstHalf_ne_secondHalf`, `firstHalf_injective`: half blocks of one track have different numbers.
-/

namespace Diskette

/-- Checks that a device of `blocks` blocks has the block. -/
def checkBlock (block blocks : Nat) : Except DiskError Unit :=
  if block < blocks then .ok () else .error (.blockOutOfRange block blocks)

theorem checkBlock_eq_ok_iff {block blocks : Nat} :
    checkBlock block blocks = .ok () ↔ block < blocks := by
  unfold checkBlock
  split <;> simp_all

/-! ## Half blocks on tracks of eight blocks -/

/-- The number of the first half of a block among the half blocks of its track. -/
def firstHalf (block : Nat) : Fin 16 := ⟨2 * (block % 8), by omega⟩

/-- The number of the second half of a block among the half blocks of its track. -/
def secondHalf (block : Nat) : Fin 16 := ⟨2 * (block % 8) + 1, by omega⟩

theorem firstHalf_ne_secondHalf (a b : Nat) : firstHalf a ≠ secondHalf b := by
  simp only [firstHalf, secondHalf, ne_eq, Fin.mk.injEq]
  omega

theorem firstHalf_injective {a b : Nat} (ht : a / 8 = b / 8) (h : firstHalf a = firstHalf b) :
    a = b := by
  simp only [firstHalf, Fin.mk.injEq] at h
  omega

end Diskette
