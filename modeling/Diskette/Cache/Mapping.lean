import Diskette.Cache.Basic
import Diskette.Device
import Std.Data.TreeSet.Lemmas

/-!
# Mappings

A mapping is a cache without buffers of its own: the bytes of a block are the part of the mapped
file that holds it, and a change is in the file at once. What is kept is only which blocks have been
given back changed and not been synced since.

* `run_acquire`: checking out a block pins nothing and asks only whether the device has it.
-/

namespace Diskette

/-- A cache over the mapping of a device. -/
structure Mapping where
  /-- The blocks given back changed and not synced since. -/
  dirty : Std.TreeSet Nat

namespace Mapping

/-- A mapping of which nothing is dirty. -/
def clean : Mapping := ⟨∅⟩

/-- Checks out a block. -/
def acquire (block : Nat) : Action (Mapping × Device × Host) Handle := do
  Action.ask fun (_, device, _) => checkBlock block device.blocks
  return ⟨block, block⟩

/-- The bytes of a block. -/
def data (handle : Handle) : Mapping × Device × Host → Except DiskError Block
  | (_, device, host) => device.mappedBlock host handle.block

/-- Changes the bytes of a block. -/
def update (handle : Handle) (change : Block → Block) : Action (Mapping × Device × Host) Unit :=
  Action.onSecond (Device.updateMapped handle.block change)

/-- Records that a block was changed. -/
def flag (block : Nat) : Action (Mapping × Device × Host) Unit := do
  Action.ask fun (_, device, _) => if device.readOnly then .error .readOnly else .ok ()
  modify fun (⟨dirty⟩, state) => (⟨dirty.insert block⟩, state)

/-- Brings a block to the medium, changed or not. -/
def syncBlock [Medium] (block : Nat) : Action (Mapping × Device × Host) Unit := do
  Action.ask fun (_, device, host) => device.syncBlock host block
  modify fun (⟨dirty⟩, state) => (⟨dirty.erase block⟩, state)

/-- Brings a block to the medium if it was changed. -/
def commitBlock [Medium] (block : Nat) : Action (Mapping × Device × Host) Unit :=
  fun (mapping, state) =>
  if mapping.dirty.contains block then syncBlock block (mapping, state) else .ok () (mapping, state)

/-- Gives a block back. -/
def release [Medium] (handle : Handle) (dirty commit : Bool) :
    Action (Mapping × Device × Host) Unit := do
  Action.ask fun (_, device, _) => checkBlock handle.block device.blocks
  if dirty then
    flag handle.block
  if commit then
    commitBlock handle.block

/-- Records that a block was changed. -/
def markDirty (block : Nat) : Action (Mapping × Device × Host) Unit := do
  Action.ask fun (_, device, _) => checkBlock block device.blocks
  flag block

/-- Brings blocks to the medium and stops at the first failure. -/
def syncBlocks [Medium] : List Nat → Action (Mapping × Device × Host) Unit
  | [] => pure ()
  | block :: rest => do
    syncBlock block
    syncBlocks rest

/-- Brings every changed block to the medium, the lowest one first. -/
def syncDirty [Medium] : Action (Mapping × Device × Host) Unit := fun (mapping, state) =>
  syncBlocks mapping.dirty.toList (mapping, state)

/-- Brings every changed block to the medium and flushes the device. -/
def sync [Medium] : Action (Mapping × Device × Host) Unit := do
  syncDirty
  Action.onSecond Device.flush

instance [Medium] : BlockCache (Mapping × Device × Host) where
  blocks state := state.2.1.blocks
  readOnly state := state.2.1.readOnly
  acquire := acquire
  data := data
  update := update
  release := release
  markDirty := markDirty
  sync := sync

theorem run_acquire (block : Nat) (mapping : Mapping) (device : Device) (host : Host) :
    (acquire block).run (mapping, device, host) =
      if block < device.blocks then .ok ⟨block, block⟩ (mapping, device, host)
      else .error (.blockOutOfRange block device.blocks) (mapping, device, host) := by
  by_cases h : block < device.blocks <;>
    simp [acquire, EStateM.run, bind, EStateM.bind, Action.ask, checkBlock, h, pure, EStateM.pure]

end Mapping

end Diskette
