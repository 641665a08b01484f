import Diskette.Disk
import Diskette.Fork.Descriptor
import Diskette.Fork.Node

/-!
# Reading forks

A fork is read from its key block down: a node of level `n + 1` has up to 256 subtrees of level `n`,
and a subtree of level 0 is a data block. A fork of an extended file is found through the mini
entries in the key block of the file.

* `normalize_of_not_extended`: a file with one fork is its own data fork.
-/

namespace Diskette

variable {κ : Type} [BlockStore κ]

/-- Where the mini entry of a fork is in the key block of an extended file. -/
def Fork.entryOffset : Fork → Nat
  | .data => 0
  | .resource => 256

/-- The descriptor of a fork of a file, which is not extended any more. -/
def normalize (descriptor : Descriptor) (fork : Fork) : Action κ Descriptor :=
  match descriptor.storageType, fork with
  | .extended, fork => do
    let key ← BlockStore.readBlock descriptor.keyBlock
    Action.ofExcept (Descriptor.parseMini (Bytes.ofSlice 8 key.data fork.entryOffset))
  | _, .data => pure descriptor
  | _, .resource => throw .noResourceFork

theorem normalize_of_not_extended {descriptor : Descriptor}
    (h : descriptor.storageType ≠ .extended) :
    (normalize descriptor .data : Action κ Descriptor) = pure descriptor := by
  unfold normalize
  split
  · next he => exact absurd he h
  · rfl
  · next hf _ => cases hf

/-! ## Index trees -/

/-- The number of data blocks under a pointer with `level` levels of nodes. -/
def spanOf : (level : Nat) → Nat
  | 0 => 1
  | level + 1 => 256 * spanOf level

/-- The first `len` bytes of a data block, with zeros past its end. -/
def readLeaf (root len : Nat) : Action κ ByteArray := do
  if root = 0 then
    return zeros len
  else
    let block ← BlockStore.readBlock root
    return slice block.data 0 len ++ zeros (len - 512)

/-- The node that a pointer stands for; a hole stands for a node of holes. -/
def readNode (root : Nat) : Action κ Block :=
  if root = 0 then pure (Bytes.zero 512) else BlockStore.readBlock root

/-- Reads `count` subtrees of a node from number `index` on, as far as `len` bytes reach, and
appends them to `acc`; what no subtree covers is zeros. Each subtree has `span` data blocks. -/
def readChildren (child : (root len offset : Nat) → Action κ ByteArray) (span : Nat)
    (node : Block) :
    (count index len offset : Nat) → (acc : ByteArray) → Action κ ByteArray
  | 0, _, len, _, acc => return acc ++ zeros len
  | count + 1, index, len, offset, acc => do
    if len = 0 then
      return acc
    else
      let taken := min ((span - offset / 512 % span) * 512) len
      let piece ← child (Node.pointer node index) taken offset
      readChildren child span node count (index + 1) (len - taken) (offset + taken) (acc ++ piece)

/-- Reads `len` bytes, in whole blocks from the one on in which byte `offset` of the fork is, from
the subtree at `root` with `level` levels of nodes. -/
def readIndex : (level root len offset : Nat) → Action κ ByteArray
  | 0, root, len, _ => readLeaf root len
  | level + 1, root, len, offset => do
    let node ← readNode root
    let span := spanOf level
    let index := offset / (512 * span) % 256
    readChildren (readIndex level) span node (256 - index) index len offset ByteArray.empty

/-- The bytes of a fork. -/
def readFork (descriptor : Descriptor) (fork : Fork) : Action κ ByteArray := do
  let plain ← normalize descriptor fork
  match plain.storageType.levels? with
  | none => throw (.invalidStorageType plain.storageType.code)
  | some levels =>
    let bytes ← readIndex levels plain.keyBlock ((plain.eof + 511) / 512 * 512) 0
    return slice bytes 0 plain.eof

end Diskette
