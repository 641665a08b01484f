import Diskette.Bitmap
import Diskette.Fork.Reading

/-!
# Freeing forks

The blocks of a fork are released by walking down its index tree, the blocks under a node before the
node itself. Holes are passed over.
-/

namespace Diskette

variable {κ : Type} [BlockStore κ]

omit [BlockStore κ] in
/-- Makes a block free. -/
def releaseBlock (block : Nat) : Action (κ × Bitmap) Unit :=
  modify fun (store, bitmap) => (store, bitmap.release block)

/-- Frees `count` subtrees of a node from number `index` on. -/
def freeChildren (child : (root : Nat) → Action (κ × Bitmap) Unit) (node : Block) :
    (count index : Nat) → Action (κ × Bitmap) Unit
  | 0, _ => pure ()
  | count + 1, index => do
    child (Node.pointer node index)
    freeChildren child node count (index + 1)

/-- Frees the subtree at `root` with `level` levels of nodes. -/
def freeSubtree : (level root : Nat) → Action (κ × Bitmap) Unit
  | 0, root => if root = 0 then pure () else releaseBlock root
  | level + 1, root =>
    if root = 0 then pure ()
    else do
      let node ← Action.onFirst (BlockStore.readBlock root)
      freeChildren (freeSubtree level) node 256 0
      releaseBlock root

/-- Frees the blocks of a fork of an extended file. -/
def freePlain (descriptor : Descriptor) : Action (κ × Bitmap) Unit :=
  match descriptor.storageType.levels? with
  | some levels => freeSubtree levels descriptor.keyBlock
  | none => pure ()

/-- Frees the blocks of a file, of both forks and the key block if it is extended. -/
def freeFork (descriptor : Descriptor) : Action (κ × Bitmap) Unit :=
  match descriptor.storageType.levels? with
  | some levels => freeSubtree levels descriptor.keyBlock
  | none => do
    let dataFork ← Action.onFirst (normalize descriptor .data)
    freePlain dataFork
    let resourceFork ← Action.onFirst (normalize descriptor .resource)
    freePlain resourceFork
    releaseBlock descriptor.keyBlock

end Diskette
