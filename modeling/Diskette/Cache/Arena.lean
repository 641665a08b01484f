import Diskette.Cache.Pool

/-!
# Arenas

A pool in the form in which it is kept: every buffer has its links in it. The buffers bound to
blocks of one residue are linked from their bucket on, and the buffers without pins are linked in
both directions, the one released longest ago first. A link is the number of a slot, or none at the
end.

* `setLink_link`: a link that was set, and the others.
* `run_acquire_of_found`: a block in the arena is checked out without touching the disk.
-/

namespace Diskette

/-- The links of a buffer. -/
inductive Arena.Link where
  | previous
  | next
  | chain
  deriving DecidableEq

/-- A buffer with its links. -/
structure Arena.Cell extends Pool.Entry where
  previous : Option Nat
  next : Option Nat
  chain : Option Nat

/-- A cache of its own buffers that are linked by their slots. As in a pool, pins are counted
without a bound. -/
structure Arena where
  /-- The buffers, by slot. -/
  cells : Array Arena.Cell
  /-- For each residue of block numbers the slot that its chain starts with. -/
  buckets : Vector (Option Nat) Pool.chainCount
  /-- The slot without pins that was released longest ago. -/
  head : Option Nat
  /-- The slot without pins that was released last. -/
  tail : Option Nat

namespace Arena

open Pool (Entry chainCount chainOf)

/-- A buffer without a block and without links. -/
def Cell.unbound : Cell := ⟨Entry.unbound, none, none, none⟩

/-- Where a link of a buffer leads. -/
def Cell.link : Link → Cell → Option Nat
  | .previous, cell => cell.previous
  | .next, cell => cell.next
  | .chain, cell => cell.chain

/-- Sets a link of a buffer. -/
def Cell.setLink : Link → Option Nat → Cell → Cell
  | .previous, target, cell => { cell with previous := target }
  | .next, target, cell => { cell with next := target }
  | .chain, target, cell => { cell with chain := target }

theorem Cell.setLink_link (kind kind' : Link) (target : Option Nat) (cell : Cell) :
    (cell.setLink kind target).link kind' = if kind' = kind then target else cell.link kind' := by
  cases kind <;> cases kind' <;> rfl

/-! ## Single slots -/

/-- What the buffer of a slot holds. -/
def entryAt (arena : Arena) (slot : Nat) : Option Entry := (arena.cells[slot]?).map (·.toEntry)

/-- The block that a slot is bound to. -/
def blockAt (arena : Arena) (slot : Nat) : Option Nat := (arena.entryAt slot).bind (·.block)

/-- The number of pins of a slot. -/
def pinsAt (arena : Arena) (slot : Nat) : Option Nat := (arena.entryAt slot).map (·.pins)

/-- Where a link of a slot leads. -/
def linkAt (arena : Arena) (kind : Link) (slot : Nat) : Option Nat :=
  (arena.cells[slot]?).bind (·.link kind)

/-- Sets a link of a slot. -/
def setLink (kind : Link) (slot : Nat) (target : Option Nat) : Arena → Arena
  | ⟨cells, buckets, head, tail⟩ => ⟨cells.modify slot (·.setLink kind target), buckets, head, tail⟩

/-- Where a chain starts. -/
def bucket (arena : Arena) (chain : Fin chainCount) : Option Nat := arena.buckets.get chain

/-- Sets where a chain starts. -/
def setBucket (chain : Fin chainCount) (target : Option Nat) : Arena → Arena
  | ⟨cells, buckets, head, tail⟩ => ⟨cells, buckets.set chain target chain.isLt, head, tail⟩

/-- Changes what the buffer of a slot holds. -/
def changeEntry (slot : Nat) (change : Entry → Entry) : Arena → Arena
  | ⟨cells, buckets, head, tail⟩ =>
    ⟨cells.modify slot fun cell => { cell with toEntry := change cell.toEntry }, buckets, head, tail⟩

/-! ## Chains -/

/-- The first slot bound to a block among `fuel` slots linked from `start` on. -/
def walk (arena : Arena) (block : Nat) : (fuel : Nat) → (start : Option Nat) → Option Nat
  | fuel + 1, some slot =>
    if arena.blockAt slot = some block then some slot
    else walk arena block fuel (arena.linkAt .chain slot)
  | _, _ => none

/-- The slot that is bound to a block. -/
def find? (arena : Arena) (block : Nat) : Option Nat :=
  arena.walk block arena.cells.size (arena.bucket (chainOf block))

/-- Binds a slot to a block and puts it at the start of the chain. -/
def hashInsert (slot block : Nat) (arena : Arena) : Arena :=
  let bound := arena.changeEntry slot fun entry => { entry with block := some block }
  let linked := bound.setLink .chain slot (arena.bucket (chainOf block))
  linked.setBucket (chainOf block) (some slot)

/-- The slot whose chain goes on with `slot`, among `fuel` slots linked from `start` on. -/
def predecessor? (arena : Arena) (slot : Nat) : (fuel : Nat) → (start : Option Nat) → Option Nat
  | fuel + 1, some current =>
    if arena.linkAt .chain current = some slot then some current
    else predecessor? arena slot fuel (arena.linkAt .chain current)
  | _, _ => none

/-- Unbinds a slot and takes it out of its chain. -/
def hashRemove (slot : Nat) (arena : Arena) : Arena :=
  match arena.blockAt slot with
  | none => arena
  | some block =>
    let next := arena.linkAt .chain slot
    let unbound := arena.changeEntry slot fun entry => { entry with block := none }
    let cut := unbound.setLink .chain slot none
    if cut.bucket (chainOf block) = some slot then cut.setBucket (chainOf block) next
    else
      match cut.predecessor? slot cut.cells.size (cut.bucket (chainOf block)) with
      | some before => cut.setLink .chain before next
      | none => cut

/-! ## The slots without pins -/

/-- Makes `target` what comes after the slot `before`, or what comes first. -/
def follow : (before target : Option Nat) → Arena → Arena
  | none, target, ⟨cells, buckets, _, tail⟩ => ⟨cells, buckets, target, tail⟩
  | some before, target, arena => arena.setLink .next before target

/-- Makes `target` what comes in front of the slot `behind`, or what comes last. -/
def precede : (behind target : Option Nat) → Arena → Arena
  | none, target, ⟨cells, buckets, head, _⟩ => ⟨cells, buckets, head, target⟩
  | some behind, target, arena => arena.setLink .previous behind target

/-- Puts a slot behind the last one without pins. -/
def pushFree (slot : Nat) (arena : Arena) : Arena :=
  let last := arena.tail
  (((arena.setLink .previous slot last).setLink .next slot none).follow last (some slot)).precede
    none (some slot)

/-- Takes a slot from those without pins. -/
def unlinkFree (slot : Nat) (arena : Arena) : Arena :=
  let before := arena.linkAt .previous slot
  let behind := arena.linkAt .next slot
  let bridged := (arena.follow before behind).precede behind before
  (bridged.setLink .previous slot none).setLink .next slot none

/-- Adds a pin to a slot. -/
def pin (slot : Nat) (arena : Arena) : Arena :=
  let taken := if arena.pinsAt slot = some 0 then arena.unlinkFree slot else arena
  taken.changeEntry slot fun entry => { entry with pins := entry.pins + 1 }

/-- Takes a pin from a slot. -/
def unpin (slot : Nat) (arena : Arena) : Arena :=
  let lowered := arena.changeEntry slot fun entry => { entry with pins := entry.pins - 1 }
  if lowered.pinsAt slot = some 0 then lowered.pushFree slot else lowered

/-- Adds a buffer, which has no pins but is not linked. -/
def grow : Arena → Arena
  | ⟨cells, buckets, head, tail⟩ => ⟨cells.push Cell.unbound, buckets, head, tail⟩

/-- An arena of `size` buffers. -/
def ofSize : (size : Nat) → Arena
  | 0 => ⟨#[], Vector.replicate chainCount none, none, none⟩
  | size + 1 => (ofSize size).grow.pushFree size

/-- The entry that a handle stands for. -/
def checkedOut (arena : Arena) (handle : Handle) : Except DiskError Entry :=
  match (arena.entryAt handle.slot).filter fun entry =>
      entry.block = some handle.block ∧ 0 < entry.pins with
  | some entry => .ok entry
  | none => .error (.staleHandle handle.block)

/-! ## The cache -/

variable {δ : Type} [Disk δ]

/-- Changes the arena. -/
@[inline] def modifyArena (change : Arena → Arena) : Action (Arena × δ) Unit :=
  modify fun (arena, disk) => (change arena, disk)

/-- Writes the buffer of a slot to the disk, if it was changed. -/
def writeBack (slot : Nat) : Action (Arena × δ) Unit := fun (arena, disk) =>
  match arena.entryAt slot with
  | some ⟨some block, data, true, _⟩ =>
    match Disk.write block data disk with
    | .ok () disk =>
      .ok () (arena.changeEntry slot fun entry => { entry with dirty := false }, disk)
    | .error e disk => .error e (arena, disk)
  | _ => .ok () (arena, disk)

/-- A slot for a block: the one released longest ago, or a new one. -/
def takeSlot : Action (Arena × δ) Nat := fun (arena, disk) =>
  match arena.head with
  | none => .ok arena.cells.size (arena.grow, disk)
  | some slot =>
    match writeBack slot (arena, disk) with
    | .ok () (arena, disk) => .ok slot ((arena.unlinkFree slot).hashRemove slot, disk)
    | .error e state => .error e state

/-- Reads a block that is not in the arena and binds a slot to it. -/
def bringIn (block : Nat) : Action (Arena × δ) Handle := do
  Action.ask fun (_, disk) => checkBlock block (Disk.blocks disk)
  let data ← Action.onSecond (Disk.read block)
  let slot ← takeSlot
  modifyArena fun arena =>
    (arena.changeEntry slot fun entry => ⟨entry.block, data, false, 1⟩).hashInsert slot block
  return ⟨block, slot⟩

/-- Checks out a block. -/
def acquire (block : Nat) : Action (Arena × δ) Handle := fun (arena, disk) =>
  match arena.find? block with
  | some slot => .ok ⟨block, slot⟩ (arena.pin slot, disk)
  | none => bringIn block (arena, disk)

/-- The bytes of a checked-out block. -/
def data (handle : Handle) : Arena × δ → Except DiskError Block
  | (arena, _) => (arena.checkedOut handle).map (·.data)

/-- Changes the bytes of a checked-out block. -/
def update (handle : Handle) (change : Block → Block) : Action (Arena × δ) Unit := do
  Action.ask fun (arena, disk) => do
    let _ ← arena.checkedOut handle
    if Disk.readOnly disk then throw .readOnly
  modifyArena (changeEntry handle.slot fun entry => { entry with data := change entry.data })

/-- Records that the buffer of a slot was changed. -/
def flag (slot : Nat) : Action (Arena × δ) Unit := do
  Action.ask fun (_, disk) => if Disk.readOnly disk then .error .readOnly else .ok ()
  modifyArena (changeEntry slot fun entry => { entry with dirty := true })

/-- What a release does before it takes the pin. -/
def settle (slot : Nat) (dirty commit : Bool) : Action (Arena × δ) Unit := do
  if dirty then
    flag slot
  if commit then
    writeBack slot

/-- Gives a block back. The pin is taken even when the block cannot be marked or written. -/
def release (handle : Handle) (dirty commit : Bool) : Action (Arena × δ) Unit := do
  Action.ask fun (arena, _) => (arena.checkedOut handle).map fun _ => ()
  let settled ← Action.attempt (settle handle.slot dirty commit)
  modifyArena (unpin handle.slot)
  Action.ofExcept settled

/-- Records that a block in the arena was changed. -/
def markDirty (block : Nat) : Action (Arena × δ) Unit := fun (arena, disk) =>
  match arena.find? block with
  | some slot => flag slot (arena, disk)
  | none => .error (.staleHandle block) (arena, disk)

/-- Writes back `count` slots from number `slot` on and stops at the first failure. -/
def writeBackFrom : (count slot : Nat) → Action (Arena × δ) Unit
  | 0, _ => pure ()
  | count + 1, slot => do
    writeBack slot
    writeBackFrom count (slot + 1)

/-- Writes back every buffer and flushes the disk. -/
def sync : Action (Arena × δ) Unit := do
  (fun (arena, disk) => writeBackFrom arena.cells.size 0 (arena, disk))
  Action.onSecond Disk.flush

instance : BlockCache (Arena × δ) where
  blocks state := Disk.blocks state.2
  readOnly state := Disk.readOnly state.2
  acquire := acquire
  data := data
  update := update
  release := release
  markDirty := markDirty
  sync := sync

theorem run_acquire_of_found {arena : Arena} {block slot : Nat} (disk : δ)
    (h : arena.find? block = some slot) :
    (acquire block).run (arena, disk) = .ok ⟨block, slot⟩ (arena.pin slot, disk) := by
  simp [EStateM.run, acquire, h]

theorem run_acquire_of_not_found {arena : Arena} {block : Nat} (disk : δ)
    (h : arena.find? block = none) :
    (acquire block).run (arena, disk) = (bringIn block).run (arena, disk) := by
  simp [EStateM.run, acquire, h]

end Arena

end Diskette
