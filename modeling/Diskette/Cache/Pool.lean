import Diskette.Cache.Basic

/-!
# Pools

A pool is a cache of its own buffers, the entries. An entry is bound to the block whose bytes it
holds, and it is pinned while the block is checked out. Entries without pins are idle: they keep
their block, and the one that has been idle for longest is the first to be bound anew. When no entry
is idle the pool grows. An entry is found by its block through chains, one for each residue of the
block number.

* `run_acquire_of_resident`: a block in the pool is checked out without touching the disk.
-/

namespace Diskette

/-- A buffer. -/
structure Pool.Entry where
  /-- The block whose bytes it holds. -/
  block : Option Nat
  data : Block
  /-- Whether it was changed since it was read or written back. -/
  dirty : Bool
  /-- How often the block is checked out and not given back yet. The count has no bound: what would
  become of it in 32 bits after `2 ^ 32` such check-outs of one block is left out. -/
  pins : Nat

/-- The number of chains. -/
abbrev Pool.chainCount : Nat := 23

/-- A cache of its own buffers. -/
structure Pool where
  /-- The buffers, by slot. -/
  entries : Array Pool.Entry
  /-- For each residue of block numbers the slots bound to a block with that residue. -/
  chains : Vector (List Nat) Pool.chainCount
  /-- The slots without pins, the one released longest ago first. -/
  idle : List Nat

namespace Pool

/-- An entry without a block. -/
def Entry.unbound : Entry := ⟨none, Bytes.zero 512, false, 0⟩

/-- A pool of `size` buffers. -/
def ofSize (size : Nat) : Pool :=
  ⟨Array.replicate size Entry.unbound, Vector.replicate chainCount [], List.range size⟩

/-- The chain of a block. -/
def chainOf (block : Nat) : Fin chainCount := ⟨block % chainCount, Nat.mod_lt _ (by decide)⟩

/-- The slot that is bound to a block. -/
def find? (pool : Pool) (block : Nat) : Option Nat :=
  pool.chains[chainOf block].find? fun slot =>
    (pool.entries[slot]?).any fun entry => entry.block = some block

/-- Whether some slot is bound to a block. -/
def resident (pool : Pool) (block : Nat) : Bool := (pool.find? block).isSome

/-- The number of entries that are checked out. -/
def pinned (pool : Pool) : Nat := pool.entries.countP fun entry => 0 < entry.pins

/-- The entry that a handle stands for. -/
def checkedOut? (pool : Pool) (handle : Handle) : Option Entry :=
  (pool.entries[handle.slot]?).filter fun entry =>
    entry.block = some handle.block ∧ 0 < entry.pins

/-- The entry that a handle stands for, or the error that it is stale. -/
def checkedOut (pool : Pool) (handle : Handle) : Except DiskError Entry :=
  match pool.checkedOut? handle with
  | some entry => .ok entry
  | none => .error (.staleHandle handle.block)

/-! ## Changes of one slot -/

/-- Changes the entry of a slot. -/
def changeEntry (slot : Nat) (change : Entry → Entry) : Pool → Pool
  | ⟨entries, chains, idle⟩ => ⟨entries.modify slot change, chains, idle⟩

/-- Adds a pin to the entry of a slot. -/
def pin (slot : Nat) : Pool → Pool
  | ⟨entries, chains, idle⟩ =>
    ⟨entries.modify slot fun entry => { entry with pins := entry.pins + 1 }, chains,
      idle.erase slot⟩

/-- Takes a pin from the entry of a slot, which is idle if that was the last one. -/
def unpin (slot : Nat) : Pool → Pool
  | ⟨entries, chains, idle⟩ =>
    let last := (entries[slot]?).any fun entry => entry.pins = 1
    ⟨entries.modify slot fun entry => { entry with pins := entry.pins - 1 }, chains,
      if last then idle ++ [slot] else idle⟩

/-- Takes a slot out of the chain of the block it is bound to. -/
def unchain (slot : Nat) : Option Nat → Vector (List Nat) chainCount → Vector (List Nat) chainCount
  | some block, chains => chains.set (chainOf block) (chains[chainOf block].erase slot)
  | none, chains => chains

/-- Takes a slot from the idle ones and from the block it is bound to. -/
def unbind (slot : Nat) : Pool → Pool
  | ⟨entries, chains, idle⟩ =>
    let block := (entries[slot]?).bind (·.block)
    ⟨entries.modify slot fun entry => { entry with block := none }, unchain slot block chains,
      idle.erase slot⟩

/-- Binds a slot to a block and its bytes, with one pin. -/
def bindTo (slot block : Nat) (data : Block) : Pool → Pool
  | ⟨entries, chains, idle⟩ =>
    ⟨entries.modify slot fun _ => ⟨some block, data, false, 1⟩,
      chains.set (chainOf block) (slot :: chains[chainOf block]), idle⟩

/-- Adds an entry without a block, which is not idle. -/
def grow : Pool → Pool
  | ⟨entries, chains, idle⟩ => ⟨entries.push Entry.unbound, chains, idle⟩

/-! ## The cache -/

variable {δ : Type} [Disk δ]

/-- Changes the pool. -/
@[inline] def modifyPool (change : Pool → Pool) : Action (Pool × δ) Unit :=
  modify fun (pool, disk) => (change pool, disk)

/-- Writes the entry of a slot to the disk, if it was changed. -/
def writeBack (slot : Nat) : Action (Pool × δ) Unit := fun (pool, disk) =>
  match pool.entries[slot]? with
  | some ⟨some block, data, true, _⟩ =>
    match Disk.write block data disk with
    | .ok () disk =>
      .ok () (pool.changeEntry slot fun entry => { entry with dirty := false }, disk)
    | .error e disk => .error e (pool, disk)
  | _ => .ok () (pool, disk)

/-- A slot that is not bound and not idle: the one that has been idle for longest, or a new one. -/
def takeSlot : Action (Pool × δ) Nat := fun (pool, disk) =>
  match pool.idle with
  | [] =>
    let slot := pool.entries.size
    .ok slot (pool.grow, disk)
  | slot :: _ =>
    match writeBack slot (pool, disk) with
    | .ok () (pool, disk) => .ok slot (pool.unbind slot, disk)
    | .error e state => .error e state

/-- Reads a block that is not in the pool and binds a slot to it. -/
def bringIn (block : Nat) : Action (Pool × δ) Handle := do
  Action.ask fun (_, disk) => checkBlock block (Disk.blocks disk)
  let data ← Action.onSecond (Disk.read block)
  let slot ← takeSlot
  modifyPool (bindTo slot block data)
  return ⟨block, slot⟩

/-- Checks out a block. -/
def acquire (block : Nat) : Action (Pool × δ) Handle := fun (pool, disk) =>
  match pool.find? block with
  | some slot => .ok ⟨block, slot⟩ (pool.pin slot, disk)
  | none => bringIn block (pool, disk)

/-- The bytes of a checked-out block. -/
def data (handle : Handle) : Pool × δ → Except DiskError Block
  | (pool, _) => (pool.checkedOut handle).map (·.data)

/-- Changes the bytes of a checked-out block. -/
def update (handle : Handle) (change : Block → Block) : Action (Pool × δ) Unit := do
  Action.ask fun (pool, disk) => do
    let _ ← pool.checkedOut handle
    if Disk.readOnly disk then throw .readOnly
  modifyPool (changeEntry handle.slot fun entry => { entry with data := change entry.data })

/-- Records that the entry of a slot was changed. -/
def flag (slot : Nat) : Action (Pool × δ) Unit := do
  Action.ask fun (_, disk) => if Disk.readOnly disk then .error .readOnly else .ok ()
  modifyPool (changeEntry slot fun entry => { entry with dirty := true })

/-- What a release does before it takes the pin. -/
def settle (slot : Nat) (dirty commit : Bool) : Action (Pool × δ) Unit := do
  if dirty then
    flag slot
  if commit then
    writeBack slot

/-- Gives a block back. The pin is taken even when the block cannot be marked or written. -/
def release (handle : Handle) (dirty commit : Bool) : Action (Pool × δ) Unit := do
  Action.ask fun (pool, _) => (pool.checkedOut handle).map fun _ => ()
  let settled ← Action.attempt (settle handle.slot dirty commit)
  modifyPool (unpin handle.slot)
  Action.ofExcept settled

/-- Records that a block in the pool was changed. -/
def markDirty (block : Nat) : Action (Pool × δ) Unit := fun (pool, disk) =>
  match pool.find? block with
  | some slot => flag slot (pool, disk)
  | none => .error (.staleHandle block) (pool, disk)

/-- Writes back `count` slots from number `slot` on and stops at the first failure. -/
def writeBackFrom : (count slot : Nat) → Action (Pool × δ) Unit
  | 0, _ => pure ()
  | count + 1, slot => do
    writeBack slot
    writeBackFrom count (slot + 1)

/-- Writes back every entry and stops at the first failure. -/
def writeBackAll : Action (Pool × δ) Unit := fun (pool, disk) =>
  writeBackFrom pool.entries.size 0 (pool, disk)

/-- Writes back every entry and flushes the disk. -/
def sync : Action (Pool × δ) Unit := do
  writeBackAll
  Action.onSecond Disk.flush

instance : BlockCache (Pool × δ) where
  blocks state := Disk.blocks state.2
  readOnly state := Disk.readOnly state.2
  acquire := acquire
  data := data
  update := update
  release := release
  markDirty := markDirty
  sync := sync

/-! ## Hits and misses -/

theorem run_acquire_of_resident {pool : Pool} {block slot : Nat} (disk : δ)
    (h : pool.find? block = some slot) :
    (acquire block).run (pool, disk) = .ok ⟨block, slot⟩ (pool.pin slot, disk) := by
  simp [EStateM.run, acquire, h]

theorem run_acquire_of_absent {pool : Pool} {block : Nat} (disk : δ)
    (h : pool.find? block = none) :
    (acquire block).run (pool, disk) = (bringIn block).run (pool, disk) := by
  simp [EStateM.run, acquire, h]

/-- With no entry to recycle the pool grows. -/
theorem run_takeSlot_of_idle_nil {pool : Pool} (disk : δ) (h : pool.idle = []) :
    takeSlot.run (pool, disk) = .ok pool.entries.size (pool.grow, disk) := by
  simp [EStateM.run, takeSlot, h]

end Pool

end Diskette
