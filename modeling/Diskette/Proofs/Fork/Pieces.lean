import Diskette.Fork.Writing
import Mathlib.Algebra.Ring.Nat

/-!
# What there is to store of a fork

A fork is stored in the smallest shape that holds it, and nothing is stored for what is only zeros: a
data block or an index node is stored if it is the first one of its kind or if there is a byte under
it that is not zero. How many blocks that makes is counted here from the data alone, level by level.

* `HasData`, `pieces`: the pieces of some size in which a byte is not zero, and how many of them are
  stored.
* `subtreeBlocks`: the blocks of some subtrees next to each other.
* `footprint`, `Descriptor.Exact`: the blocks of a fork in its shape.
-/

namespace Diskette

variable {data : ByteArray} {size first count k level blocks : Nat}

/-! ## Pieces -/

/-- When the data is cut into pieces of `size` bytes, not all bytes of piece number `k` are zero. -/
def HasData (data : ByteArray) (size k : Nat) : Prop := ∃ i < size, byteAt data (k * size + i) ≠ 0

instance (data : ByteArray) (size k : Nat) : Decidable (HasData data size k) :=
  inferInstanceAs (Decidable (∃ i, i < size ∧ byteAt data (k * size + i) ≠ 0))

/-- How many of the `count` pieces of `size` bytes from number `first` on are stored: piece number 0
is, and so are those with data. -/
def pieces (data : ByteArray) (size first count : Nat) : Nat :=
  (List.range' first count).countP fun k => k = 0 ∨ HasData data size k

theorem pieces_add (data : ByteArray) (size first count count' : Nat) :
    pieces data size first (count + count') =
      pieces data size first count + pieces data size (first + count) count' := by
  rw [pieces, ← List.range'_append_1, List.countP_append]
  rfl

theorem pieces_one (data : ByteArray) (size k : Nat) :
    pieces data size k 1 = if k = 0 ∨ HasData data size k then 1 else 0 := by
  simp [pieces, List.range'_one, List.countP_cons]

theorem pieces_eq_zero
    (h : ∀ k, first ≤ k → k < first + count → k ≠ 0 ∧ ¬ HasData data size k) :
    pieces data size first count = 0 := by
  refine List.countP_eq_zero.mpr fun k hk => ?_
  obtain ⟨hle, hlt⟩ := List.mem_range'_1.mp hk
  have := h k hle hlt
  simp [this]

theorem mul_lt_size_of_hasData (h : HasData data size k) : k * size < data.size := by
  obtain ⟨i, -, hbyte⟩ := h
  by_contra hle
  exact hbyte (byteAt_of_size_le (by omega))

/-- There is nothing to store past the end of the data. -/
theorem pieces_eq_of_le {count' : Nat} (hpos : 0 < count) (hle : count ≤ count')
    (h : data.size ≤ count * size) : pieces data size 0 count' = pieces data size 0 count := by
  obtain ⟨more, rfl⟩ := Nat.exists_eq_add_of_le hle
  have hmore : pieces data size (0 + count) more = 0 := pieces_eq_zero fun k hk _ => by
    refine ⟨by omega, fun hdata => ?_⟩
    have hlt := mul_lt_size_of_hasData hdata
    have hmul : count * size ≤ k * size := Nat.mul_le_mul_right size (by omega)
    omega
  rw [pieces_add, hmore, Nat.add_zero]

/-- A piece that is made of smaller ones. -/
theorem hasData_mul_iff {parts : Nat} :
    HasData data (parts * size) k ↔ ∃ j < parts, HasData data size (k * parts + j) := by
  have hplace (j i : Nat) : (k * parts + j) * size + i = k * (parts * size) + (j * size + i) := by
    rw [Nat.add_mul, Nat.mul_assoc, Nat.add_assoc]
  constructor
  · rintro ⟨i, hi, hbyte⟩
    have hsize : 0 < size := Nat.pos_of_mul_pos_left (Nat.zero_lt_of_lt hi)
    refine ⟨i / size, Nat.div_lt_of_lt_mul (by rwa [Nat.mul_comm]), i % size, Nat.mod_lt _ hsize, ?_⟩
    rwa [hplace, Nat.div_add_mod']
  · rintro ⟨j, hj, i, hi, hbyte⟩
    refine ⟨j * size + i, ?_, by rwa [← hplace]⟩
    have hmul : (j + 1) * size ≤ parts * size := Nat.mul_le_mul_right size hj
    rw [Nat.succ_mul] at hmul
    omega

/-! ## Subtrees -/

/-- How many blocks the `count` subtrees from number `first` on take, with `level` levels of nodes
each: those that are stored, and what is under them. -/
def subtreeBlocks (data : ByteArray) : (level first count : Nat) → Nat
  | 0, first, count => pieces data (spanOf 0 * 512) first count
  | level + 1, first, count =>
    pieces data (spanOf (level + 1) * 512) first count +
      subtreeBlocks data level (256 * first) (256 * count)

theorem subtreeBlocks_add (data : ByteArray) (level first count count' : Nat) :
    subtreeBlocks data level first (count + count') =
      subtreeBlocks data level first count + subtreeBlocks data level (first + count) count' := by
  induction level generalizing first count count' with
  | zero => exact pieces_add ..
  | succ level ih =>
    simp only [subtreeBlocks]
    rw [pieces_add, Nat.mul_add, ih, Nat.mul_add]
    omega

/-- Where nothing is stored nothing is stored below. -/
theorem subtreeBlocks_eq_zero
    (h : ∀ k, first ≤ k → k < first + count → k ≠ 0 ∧ ¬ HasData data (spanOf level * 512) k) :
    subtreeBlocks data level first count = 0 := by
  induction level generalizing first count with
  | zero => exact pieces_eq_zero h
  | succ level ih =>
    rw [subtreeBlocks, pieces_eq_zero h, Nat.zero_add]
    refine ih fun k hle hlt => ?_
    obtain ⟨hne, hnone⟩ := h (k / 256) (by omega) (by omega)
    refine ⟨by omega, fun hdata => hnone ?_⟩
    rw [spanOf, Nat.mul_assoc]
    exact hasData_mul_iff.mpr ⟨k % 256, Nat.mod_lt _ (by decide), by rwa [Nat.div_add_mod']⟩

/-! ## Forks -/

/-- The number of data blocks of a fork. An empty one has a block, too. -/
def dataBlocks (data : ByteArray) : Nat := max 1 ((data.size + 511) / 512)

/-- How many blocks a fork takes: the data blocks that are stored, and the index nodes above them. A
tree has a node for each group of 256 data blocks that is stored, and a master node. -/
def footprint (data : ByteArray) : StorageType → Nat
  | .seedling => pieces data 512 0 (dataBlocks data)
  | .sapling => pieces data 512 0 (dataBlocks data) + 1
  | .tree =>
    pieces data 512 0 (dataBlocks data) + 1 +
      pieces data (256 * 512) 0 ((dataBlocks data + 255) / 256)
  | .extended => 0

/-- The descriptor of a fork with this data that takes no more than it has to. -/
structure Descriptor.Exact (descriptor : Descriptor) (data : ByteArray) : Prop where
  /-- No smaller shape holds the data blocks. -/
  smallest : ∃ levels, descriptor.storageType.levels? = some levels ∧
    dataBlocks data ≤ 256 ^ levels ∧ ∀ lower < levels, 256 ^ lower < dataBlocks data
  eof_eq : descriptor.eof = data.size
  used_eq : descriptor.blocksUsed = footprint data descriptor.storageType

theorem size_le_dataBlocks (data : ByteArray) : data.size ≤ dataBlocks data * 512 := by
  unfold dataBlocks
  omega

theorem dataBlocks_pos (data : ByteArray) : 0 < dataBlocks data := by
  unfold dataBlocks
  omega

theorem smallest_forBlocks {levels : Nat} (hmax : blocks ≤ 65536)
    (h : (StorageType.forBlocks blocks).levels? = some levels) :
    blocks ≤ 256 ^ levels ∧ ∀ lower < levels, 256 ^ lower < blocks := by
  unfold StorageType.forBlocks at h
  split at h
  · cases h
    exact ⟨by omega, nofun⟩
  · split at h
    · cases h
      refine ⟨by omega, fun lower hlower => ?_⟩
      obtain rfl : lower = 0 := by omega
      omega
    · cases h
      refine ⟨by omega, fun lower hlower => ?_⟩
      obtain rfl | rfl : lower = 0 ∨ lower = 1 := by omega
      · omega
      · omega

/-- The blocks of a whole tree, level by level. -/
theorem subtreeBlocks_eq_footprint {levels : Nat} (hmax : dataBlocks data ≤ 65536)
    (h : (StorageType.forBlocks (dataBlocks data)).levels? = some levels) :
    subtreeBlocks data levels 0 1 = footprint data (StorageType.forBlocks (dataBlocks data)) := by
  have hsize := size_le_dataBlocks data
  have hpos := dataBlocks_pos data
  have hroot (size : Nat) : pieces data size 0 1 = 1 := by rw [pieces_one, if_pos (.inl rfl)]
  have hleaves {count : Nat} (hle : dataBlocks data ≤ count) :
      pieces data 512 0 count = pieces data 512 0 (dataBlocks data) :=
    pieces_eq_of_le hpos hle hsize
  have hgroups : pieces data (256 * 512) 0 256 =
      pieces data (256 * 512) 0 ((dataBlocks data + 255) / 256) := by
    refine pieces_eq_of_le (Nat.div_pos (by omega) (by decide)) (by omega) ?_
    have hcover : dataBlocks data ≤ (dataBlocks data + 255) / 256 * 256 := by omega
    rw [← Nat.mul_assoc]
    exact Nat.le_trans hsize (Nat.mul_le_mul_right 512 hcover)
  unfold StorageType.forBlocks at h ⊢
  split at h
  · next hone =>
    cases h
    rw [if_pos hone, footprint, ← hleaves hone, subtreeBlocks, spanOf]
  · next hmany =>
    split at h
    · next hfew =>
      cases h
      rw [if_neg hmany, if_pos hfew, footprint, ← hleaves hfew]
      simp only [subtreeBlocks, hroot, spanOf, Nat.mul_zero, Nat.mul_one, Nat.one_mul, Nat.add_comm]
    · next hlarge =>
      cases h
      rw [if_neg hmany, if_neg hlarge, footprint, ← hleaves hmax, ← hgroups]
      simp only [subtreeBlocks, hroot, spanOf, Nat.mul_zero, Nat.mul_one, Nat.one_mul, Nat.reduceMul]
      omega

end Diskette
