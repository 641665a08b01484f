import Diskette.Bytes.Number
import Diskette.Error

/-!
# Fork descriptors

Where a fork is on a volume and how large it is. A fork of one block is a seedling, one of up to 256
blocks a sapling with one index node, a larger one a tree with a node of nodes. An extended file has
two forks, whose descriptors are mini entries of eight bytes in its key block.

* `ofCode_code`: the number of a storage type is read back as that type.
-/

namespace Diskette

/-- The shape of what a key block stands for. -/
inductive StorageType where
  | seedling
  | sapling
  | tree
  | extended
  deriving DecidableEq, Repr

namespace StorageType

/-- The number of a storage type in an entry. -/
def code : StorageType → UInt8
  | seedling => 1
  | sapling => 2
  | tree => 3
  | extended => 5

/-- The storage type with that number. -/
def ofCode (code : UInt8) : Except DiskError StorageType :=
  if code = 1 then .ok seedling
  else if code = 2 then .ok sapling
  else if code = 3 then .ok tree
  else if code = 5 then .ok extended
  else .error (.invalidStorageType code)

theorem ofCode_code (storageType : StorageType) : ofCode storageType.code = .ok storageType := by
  cases storageType <;> rfl

/-- The levels of index nodes above the data blocks. An extended file has two forks and no number of
its own. -/
def levels? : StorageType → Option Nat
  | seedling => some 0
  | sapling => some 1
  | tree => some 2
  | extended => none

/-- The smallest shape that holds `blocks` data blocks. -/
def forBlocks (blocks : Nat) : StorageType :=
  if blocks ≤ 1 then seedling else if blocks ≤ 256 then sapling else tree

end StorageType

/-- The two forks that a file can have. -/
inductive Fork where
  | data
  | resource
  deriving DecidableEq, Repr

/-- Where a fork is and how large it is. -/
structure Descriptor where
  storageType : StorageType
  /-- The block that everything else is found from. -/
  keyBlock : Nat
  /-- The number of blocks taken, index nodes among them. -/
  blocksUsed : Nat
  /-- The number of bytes of the fork. -/
  eof : Nat
  deriving DecidableEq, Repr

/-- Checks that a number fits the 16 bits that an index node has for a block. -/
def checkPointer (block : Nat) : Except DiskError Unit :=
  if block < 0x10000 then .ok () else .error (.unsupported (.pointerTooLarge block))

namespace Descriptor

/-- Reads a mini entry. -/
def parseMini (entry : Bytes 8) : Except DiskError Descriptor :=
  match StorageType.ofCode (entry.byte 0) with
  | .error e => .error e
  | .ok .extended => .error (.invalidStorageType (entry.byte 0))
  | .ok storageType =>
    .ok ⟨storageType, leNat entry.data 1 2, leNat entry.data 3 2, leNat entry.data 5 3⟩

/-- The mini entry of a fork; of the size only the low 24 bits are kept. -/
def toMini (descriptor : Descriptor) : Except DiskError (Bytes 8) := do
  checkPointer descriptor.keyBlock
  checkPointer descriptor.blocksUsed
  return Bytes.ofList 8 <|
    [descriptor.storageType.code] ++ leBytes 2 descriptor.keyBlock ++
      leBytes 2 descriptor.blocksUsed ++ leBytes 3 descriptor.eof

end Descriptor

end Diskette
