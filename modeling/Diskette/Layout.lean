import Diskette.Layout.Interleaved
import Diskette.Layout.Nibble
import Diskette.Layout.Sequential

/-!
# Layouts

Where the blocks of an image are in its file: one after the other, interleaved on tracks, or encoded
on tracks of disk bytes.

* `blockOffset?_eq_some_iff`: only the sequential layout keeps the bytes of a block together.
-/

namespace Diskette

/-- The place of every block of an image. -/
inductive Layout where
  | sequential (layout : Layout.Sequential)
  | interleaved (layout : Layout.Interleaved)
  | nibble (layout : Layout.Nibble)

namespace Layout

/-- The number of blocks. -/
def blocks : Layout → Nat
  | sequential layout => layout.blocks
  | interleaved layout => layout.blocks
  | nibble layout => layout.blocks

/-- The format of a file that has this layout and no header. -/
def format : Layout → Format
  | sequential _ => .proDosOrder
  | interleaved _ => .dosOrder
  | nibble _ => .nibble

/-- Where a block starts, if its bytes are kept together. -/
def blockOffset? : Layout → (block : Nat) → Option Nat
  | sequential layout, block => layout.blockOffset? block
  | interleaved _, _ => none
  | nibble _, _ => none

theorem blockOffset?_eq_some_iff {layout : Layout} {block offset : Nat} :
    layout.blockOffset? block = some offset ↔
      ∃ inner, layout = sequential inner ∧ block < inner.blocks ∧ inner.offset block = offset := by
  cases layout <;> simp [blockOffset?, Sequential.blockOffset?]

/-- Runs an action of the nibble layout on a layout and the host. -/
@[inline] def onNibble {α : Type} (layout : Nibble) (act : Action (Nibble × Host) α) (host : Host) :
    EStateM.Result DiskError (Layout × Host) α :=
  match act (layout, host) with
  | .ok a (layout, host) => .ok a (nibble layout, host)
  | .error e (layout, host) => .error e (nibble layout, host)

/-- Runs an action on the host that leaves the layout as it is. -/
@[inline] def keeping {α : Type} (layout : Layout) (act : Action Host α) (host : Host) :
    EStateM.Result DiskError (Layout × Host) α :=
  match act host with
  | .ok a host => .ok a (layout, host)
  | .error e host => .error e (layout, host)

/-- The bytes of a block. -/
def readBlock (storage : Storage) (block : Nat) : Action (Layout × Host) Block
  | (sequential layout, host) =>
    keeping (sequential layout) (Action.ask fun host => layout.readBlock storage host block) host
  | (interleaved layout, host) =>
    keeping (interleaved layout) (Action.ask fun host => layout.readBlock storage host block) host
  | (nibble layout, host) => onNibble layout (Nibble.readBlock storage block) host

/-- Replaces the bytes of a block. -/
def writeBlock [Medium] (storage : Storage) (block : Nat) (data : Block) :
    Action (Layout × Host) Unit
  | (sequential layout, host) =>
    keeping (sequential layout) (layout.writeBlock storage block data) host
  | (interleaved layout, host) =>
    keeping (interleaved layout) (layout.writeBlock storage block data) host
  | (nibble layout, host) => onNibble layout (Nibble.writeBlock storage block data) host

end Layout

end Diskette
