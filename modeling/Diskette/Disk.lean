import Diskette.Action
import Diskette.BlockNumber
import Diskette.Bytes

/-!
# Disks and block stores

Two interfaces to numbered blocks. A `Disk` is what lies under a cache: it knows how many blocks it
has and whether they may be written, and it can be flushed. A `BlockStore` is what files are kept
in: blocks are read and replaced, and nothing else is asked.
-/

namespace Diskette

/-- Numbered blocks under a cache. -/
class Disk (δ : Type) where
  /-- The number of blocks. -/
  blocks : δ → Nat
  /-- Whether writing is refused. -/
  readOnly : δ → Bool
  read : (block : Nat) → Action δ Block
  write : (block : Nat) → (data : Block) → Action δ Unit
  /-- Brings what belongs to the blocks, such as a checksum, up to date. -/
  flush : Action δ Unit

/-- Numbered blocks that files are kept in. -/
class BlockStore (κ : Type) where
  readBlock : (block : Nat) → Action κ Block
  writeBlock : (block : Nat) → (data : Block) → Action κ Unit

end Diskette
