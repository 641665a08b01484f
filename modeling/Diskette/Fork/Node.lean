import Diskette.Bytes

/-!
# Index nodes

An index node is a block of 256 block numbers of 16 bits: the low bytes first, then the high bytes.
The number 0 stands for a hole, which reads as zeros.

* `pointer_pack`: the numbers packed into a node are read back.
-/

namespace Diskette.Node

/-- Block number `i` of a node. -/
def pointer (node : Block) (i : Nat) : Nat :=
  (node.byte i).toNat + 256 * (node.byte (i + 256)).toNat

/-- The node of these block numbers; what follows them is holes. -/
def pack (pointers : Array Nat) : Block :=
  Bytes.tabulate 512 fun i =>
    if i < 256 then UInt8.ofNat ((pointers[i]?).getD 0)
    else UInt8.ofNat ((pointers[i - 256]?).getD 0 / 256)

theorem pointer_pack {pointers : Array Nat} {i : Nat} (hi : i < 256)
    (h : (pointers[i]?).getD 0 < 0x10000) : pointer (pack pointers) i = (pointers[i]?).getD 0 := by
  simp only [pointer, pack, Bytes.byte_tabulate, show i < 512 by omega, show i + 256 < 512 by omega,
    hi, show ¬ i + 256 < 256 by omega, if_true, if_false, Nat.add_sub_cancel, UInt8.toNat_ofNat']
  omega

end Diskette.Node
