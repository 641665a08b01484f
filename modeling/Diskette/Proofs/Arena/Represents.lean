import Diskette.Proofs.Arena.Links
import Diskette.Proofs.Pool.Valid
import Mathlib.Data.List.Perm.Subperm

/-!
# Arenas represent pools

An arena represents a pool if the buffers are the same, the links lead through the chains of the
pool, and those between the slots without pins lead through its idle slots, there and back. What is
done to a slot of the arena is done to the pool.

* `Represents.find?_eq`: a block is found in the same slot.
* `Represents.pin`, `Represents.unpin`: checking a block out and giving it back.
* `Represents.unbind`, `Represents.grow`, `Represents.bindTo`: a slot for a block.
* `represents_ofSize`: new arenas represent new pools.
-/

namespace Diskette.Arena

open Pool (Entry chainCount chainOf)

variable {arena : Arena} {pool : Pool} {slot block size i : Nat} {kind kind' : Link}
  {target : Option Nat} {change : Entry → Entry}

/-! ## What a change of a slot changes -/

@[simp] theorem size_setLink : (arena.setLink kind slot target).cells.size = arena.cells.size :=
  Array.size_modify

@[simp] theorem size_changeEntry : (arena.changeEntry slot change).cells.size = arena.cells.size :=
  Array.size_modify

@[simp] theorem bucket_setLink {chain : Fin chainCount} :
    (arena.setLink kind slot target).bucket chain = arena.bucket chain := rfl

@[simp] theorem head_setLink : (arena.setLink kind slot target).head = arena.head := rfl

@[simp] theorem tail_setLink : (arena.setLink kind slot target).tail = arena.tail := rfl

@[simp] theorem size_setBucket {chain : Fin chainCount} :
    (arena.setBucket chain target).cells.size = arena.cells.size := rfl

@[simp] theorem entryAt_setBucket {chain : Fin chainCount} :
    (arena.setBucket chain target).entryAt i = arena.entryAt i := rfl

@[simp] theorem linkAt_setBucket {chain : Fin chainCount} :
    (arena.setBucket chain target).linkAt kind i = arena.linkAt kind i := rfl

theorem bucket_setBucket (chain chain' : Fin chainCount) :
    (arena.setBucket chain target).bucket chain' =
      if chain' = chain then target else arena.bucket chain' := by
  change (arena.buckets.set chain target chain.isLt)[chain'] =
    if chain' = chain then target else arena.buckets[chain']
  simp only [Fin.getElem_fin, Vector.getElem_set, Fin.ext_iff, eq_comm]

@[simp] theorem bucket_changeEntry {chain : Fin chainCount} :
    (arena.changeEntry slot change).bucket chain = arena.bucket chain := rfl

@[simp] theorem head_changeEntry : (arena.changeEntry slot change).head = arena.head := rfl

@[simp] theorem tail_changeEntry : (arena.changeEntry slot change).tail = arena.tail := rfl

private theorem getElem?_setLink : (arena.setLink kind slot target).cells[i]? =
    if slot = i then (arena.cells[i]?).map (·.setLink kind target) else arena.cells[i]? :=
  Array.getElem?_modify

private theorem getElem?_changeEntry : (arena.changeEntry slot change).cells[i]? =
    if slot = i then
      (arena.cells[i]?).map fun cell => { cell with toEntry := change cell.toEntry }
    else arena.cells[i]? :=
  Array.getElem?_modify

@[simp] theorem entryAt_setLink : (arena.setLink kind slot target).entryAt i = arena.entryAt i := by
  have hentry (cell : Cell) : (cell.setLink kind target).toEntry = cell.toEntry := by
    cases kind <;> rfl
  unfold entryAt
  rw [getElem?_setLink]
  split
  · rw [Option.map_map]
    exact congrArg (Option.map · _) (funext hentry)
  · rfl

theorem linkAt_setLink (h : slot < arena.cells.size) :
    (arena.setLink kind slot target).linkAt kind' i =
      if kind' = kind ∧ i = slot then target else arena.linkAt kind' i := by
  unfold linkAt
  rw [getElem?_setLink]
  by_cases hi : slot = i
  · subst hi
    simp [h, Cell.setLink_link]
  · simp [hi, Ne.symm hi]

theorem entryAt_changeEntry : (arena.changeEntry slot change).entryAt i =
    if slot = i then (arena.entryAt i).map change else arena.entryAt i := by
  unfold entryAt
  rw [getElem?_changeEntry]
  split
  · rw [Option.map_map, Option.map_map]
    rfl
  · rfl

@[simp] theorem linkAt_changeEntry :
    (arena.changeEntry slot change).linkAt kind i = arena.linkAt kind i := by
  have hlink (cell : Cell) :
      ({ cell with toEntry := change cell.toEntry } : Cell).link kind = cell.link kind := by
    cases kind <;> rfl
  unfold linkAt
  rw [getElem?_changeEntry]
  split
  · rw [Option.bind_map]
    exact congrArg (Option.bind _) (funext hlink)
  · rfl

/-! ## Representation -/

/-- The arena holds what the pool holds, and its links lead through the lists of the pool. -/
structure Represents (arena : Arena) (pool : Pool) : Prop where
  size_eq : arena.cells.size = pool.entries.size
  entryAt_eq (i : Nat) : arena.entryAt i = pool.entries[i]?
  chain (chain : Fin chainCount) :
    Leads (arena.linkAt .chain) (arena.bucket chain) pool.chains[chain] none
  forward : Leads (arena.linkAt .next) arena.head pool.idle none
  backward : Leads (arena.linkAt .previous) arena.tail pool.idle.reverse none

theorem Represents.blockAt_eq (h : arena.Represents pool) (i : Nat) :
    arena.blockAt i = pool.blockAt i := by
  rw [blockAt, h.entryAt_eq, Pool.blockAt]

theorem Represents.pinsAt_eq (h : arena.Represents pool) (i : Nat) :
    arena.pinsAt i = pool.pinsAt i := by
  rw [pinsAt, h.entryAt_eq, Pool.pinsAt]

theorem Represents.checkedOut_eq (h : arena.Represents pool) (handle : Handle) :
    arena.checkedOut handle = pool.checkedOut handle := by
  unfold checkedOut
  rw [h.entryAt_eq]
  rfl

theorem Represents.changeEntry (h : arena.Represents pool) (slot : Nat) (change : Entry → Entry) :
    (arena.changeEntry slot change).Represents (pool.changeEntry slot change) where
  size_eq := by
    rw [size_changeEntry, h.size_eq]
    exact Array.size_modify.symm
  entryAt_eq i := by
    rw [entryAt_changeEntry, Pool.getElem?_entries_changeEntry, h.entryAt_eq]
  chain chain := (h.chain chain).congr fun _ _ => linkAt_changeEntry
  forward := h.forward.congr fun _ _ => linkAt_changeEntry
  backward := h.backward.congr fun _ _ => linkAt_changeEntry

/-- In a well-formed pool every slot in a chain and every idle slot is one of its slots. -/
theorem lt_of_blockAt (h : pool.blockAt slot = some block) : slot < pool.entries.size := by
  obtain ⟨entry, he, -⟩ := Pool.blockAt_eq_some_iff.mp h
  exact (Array.getElem?_eq_some_iff.mp he).1

theorem lt_of_pinsAt {pins : Nat} (h : pool.pinsAt slot = some pins) :
    slot < pool.entries.size := by
  obtain ⟨entry, he, -⟩ := Option.map_eq_some_iff.mp h
  exact (Array.getElem?_eq_some_iff.mp he).1

/-! ## Finding a block -/

theorem length_le_of_nodup {slots : List Nat} {n : Nat} (hnodup : slots.Nodup)
    (hlt : ∀ i ∈ slots, i < n) : slots.length ≤ n := by
  have hsub : slots ⊆ List.range n := fun i hi => List.mem_range.mpr (hlt i hi)
  simpa using (List.Nodup.subperm hnodup hsub).length_le

theorem lt_of_mem_chain (hv : pool.Chained size) {chain : Fin chainCount}
    (h : slot ∈ pool.chains.get chain) : slot < pool.entries.size := by
  obtain ⟨block, hb, -⟩ := (hv.mem_chain chain slot).mp h
  exact lt_of_blockAt hb

theorem Represents.length_chain_le (h : arena.Represents pool) (hv : pool.Chained size)
    (chain : Fin chainCount) : (pool.chains.get chain).length ≤ arena.cells.size :=
  length_le_of_nodup (hv.nodup_chain chain) fun _ hi =>
    h.size_eq ▸ lt_of_mem_chain hv hi

/-- A block is found in the same slot. -/
theorem Represents.find?_eq (h : arena.Represents pool) (hv : pool.Chained size) (block : Nat) :
    arena.find? block = pool.find? block := by
  have hbound (i : Nat) : decide (arena.blockAt i = some block) =
      (pool.entries[i]?).any fun entry => entry.block = some block := by
    rw [h.blockAt_eq, Pool.blockAt]
    cases pool.entries[i]? <;> simp
  rw [find?, walk_eq_find? (h.chain _) (h.length_chain_le hv _), Pool.find?]
  simp only [hbound]

/-! ## The slots without pins -/

section

variable {before behind : Option Nat}

@[simp] theorem size_follow : (arena.follow before target).cells.size = arena.cells.size := by
  cases before with
  | none => rfl
  | some before => exact size_setLink

@[simp] theorem entryAt_follow : (arena.follow before target).entryAt i = arena.entryAt i := by
  cases before with
  | none => rfl
  | some before => exact entryAt_setLink

@[simp] theorem bucket_follow {chain : Fin chainCount} :
    (arena.follow before target).bucket chain = arena.bucket chain := by
  cases before <;> rfl

theorem head_follow : (arena.follow before target).head =
    if before = none then target else arena.head := by
  cases before <;> rfl

@[simp] theorem tail_follow : (arena.follow before target).tail = arena.tail := by
  cases before <;> rfl

theorem linkAt_follow (h : ∀ j, before = some j → j < arena.cells.size) :
    (arena.follow before target).linkAt kind i =
      if kind = .next ∧ before = some i then target else arena.linkAt kind i := by
  cases before with
  | none =>
    rw [if_neg (by simp)]
    rfl
  | some before =>
    simp only [follow, linkAt_setLink (h before rfl), Option.some.injEq, eq_comm]

@[simp] theorem size_precede : (arena.precede behind target).cells.size = arena.cells.size := by
  cases behind with
  | none => rfl
  | some behind => exact size_setLink

@[simp] theorem entryAt_precede : (arena.precede behind target).entryAt i = arena.entryAt i := by
  cases behind with
  | none => rfl
  | some behind => exact entryAt_setLink

@[simp] theorem bucket_precede {chain : Fin chainCount} :
    (arena.precede behind target).bucket chain = arena.bucket chain := by
  cases behind <;> rfl

@[simp] theorem head_precede : (arena.precede behind target).head = arena.head := by
  cases behind <;> rfl

theorem tail_precede : (arena.precede behind target).tail =
    if behind = none then target else arena.tail := by
  cases behind <;> rfl

theorem linkAt_precede (h : ∀ j, behind = some j → j < arena.cells.size) :
    (arena.precede behind target).linkAt kind i =
      if kind = .previous ∧ behind = some i then target else arena.linkAt kind i := by
  cases behind with
  | none =>
    rw [if_neg (by simp)]
    rfl
  | some behind =>
    simp only [precede, linkAt_setLink (h behind rfl), Option.some.injEq, eq_comm]

end

@[simp] theorem size_unlinkFree : (arena.unlinkFree slot).cells.size = arena.cells.size := by
  simp [unlinkFree]

@[simp] theorem entryAt_unlinkFree : (arena.unlinkFree slot).entryAt i = arena.entryAt i := by
  simp [unlinkFree]

@[simp] theorem bucket_unlinkFree {chain : Fin chainCount} :
    (arena.unlinkFree slot).bucket chain = arena.bucket chain := by
  simp [unlinkFree]

theorem linkAt_unlinkFree (hslot : slot < arena.cells.size)
    (hprevious : ∀ j, arena.linkAt .previous slot = some j → j < arena.cells.size)
    (hnext : ∀ j, arena.linkAt .next slot = some j → j < arena.cells.size) :
    (arena.unlinkFree slot).linkAt kind i =
      if kind ≠ .chain ∧ i = slot then none
      else if kind = .next ∧ arena.linkAt .previous slot = some i then arena.linkAt .next slot
      else if kind = .previous ∧ arena.linkAt .next slot = some i then arena.linkAt .previous slot
      else arena.linkAt kind i := by
  rw [unlinkFree, linkAt_setLink (by simpa using hslot), linkAt_setLink (by simpa using hslot),
    linkAt_precede (by simpa using hnext), linkAt_follow hprevious]
  cases kind <;> simp

@[simp] theorem size_pushFree : (arena.pushFree slot).cells.size = arena.cells.size := by
  simp [pushFree]

@[simp] theorem entryAt_pushFree : (arena.pushFree slot).entryAt i = arena.entryAt i := by
  simp [pushFree]

@[simp] theorem bucket_pushFree {chain : Fin chainCount} :
    (arena.pushFree slot).bucket chain = arena.bucket chain := by
  simp [pushFree]

theorem linkAt_pushFree (hslot : slot < arena.cells.size)
    (hlast : ∀ j, arena.tail = some j → j < arena.cells.size) :
    (arena.pushFree slot).linkAt kind i =
      if kind = .next ∧ arena.tail = some i then some slot
      else if kind = .next ∧ i = slot then none
      else if kind = .previous ∧ i = slot then arena.tail
      else arena.linkAt kind i := by
  rw [pushFree, linkAt_precede (fun _ hj => by cases hj), linkAt_follow (by simpa using hlast),
    linkAt_setLink (by simpa using hslot), linkAt_setLink hslot]
  simp

/-- The idle slots in front of a slot and behind it, from the other end on. -/
theorem Represents.backward_of_split (h : arena.Represents pool) {front back : List Nat}
    (hsplit : pool.idle = front ++ slot :: back) :
    Leads (arena.linkAt .previous) arena.tail (back.reverse ++ slot :: front.reverse) none := by
  have hbackward := h.backward
  rwa [hsplit, List.reverse_append, List.reverse_cons, List.append_assoc, List.singleton_append]
    at hbackward

/-- What one end of a linked list says about the links in it. -/
theorem Represents.links_of_split (h : arena.Represents pool) {front back : List Nat}
    (hsplit : pool.idle = front ++ slot :: back) :
    arena.linkAt .previous slot = front.getLast? ∧ arena.linkAt .next slot = back.head? := by
  refine ⟨?_, (leads_split.mp (hsplit ▸ h.forward)).2.start_eq⟩
  rw [(leads_split.mp (h.backward_of_split hsplit)).2.start_eq, List.head?_reverse]

/-- A slot is taken from those without pins. -/
theorem Represents.unlinkFree (h : arena.Represents pool) (hnodup : pool.idle.Nodup)
    (hlt : ∀ i ∈ pool.idle, i < pool.entries.size) (hmem : slot ∈ pool.idle) :
    (arena.unlinkFree slot).Represents ⟨pool.entries, pool.chains, pool.idle.erase slot⟩ := by
  -- The queue is doubly linked, so the slot has neighbours on both sides to be joined.
  obtain ⟨front, back, hsplit⟩ := List.append_of_mem hmem
  obtain ⟨hprevious, hnext⟩ := h.links_of_split hsplit
  have hfront (i : Nat) (hi : i ∈ front) : i ∈ pool.idle := by simp [hsplit, hi]
  have hback (i : Nat) (hi : i ∈ back) : i ∈ pool.idle := by simp [hsplit, hi]
  have hlink (kind : Link) (i : Nat) : (arena.unlinkFree slot).linkAt kind i = _ :=
    linkAt_unlinkFree (h.size_eq ▸ hlt slot hmem)
      (fun j hj => h.size_eq ▸ hlt j (hfront j (List.mem_of_getLast? (hprevious ▸ hj))))
      (fun j hj => h.size_eq ▸ hlt j (hback j (List.mem_of_head? (hnext ▸ hj))))
  rw [hsplit] at hnodup
  -- Seen from the tail the queue is the same list turned round.
  have hnodup' : (back.reverse ++ slot :: front.reverse).Nodup := by
    have := List.nodup_reverse.mpr hnodup
    rwa [List.reverse_append, List.reverse_cons, List.append_assoc, List.singleton_append] at this
  rw [hsplit, erase_middle hnodup]
  constructor
  case size_eq => exact size_unlinkFree.trans h.size_eq
  case entryAt_eq => exact fun i => entryAt_unlinkFree.trans (h.entryAt_eq i)
  case chain =>
    intro chain
    rw [bucket_unlinkFree]
    exact (h.chain chain).congr fun i _ => by simp [hlink]
  case forward =>
    refine Leads.remove (hsplit ▸ h.forward) hnodup (fun i hi => ?_) ?_
    · simp [hlink, hi, hprevious]
    · simp [Arena.unlinkFree, head_follow, hprevious]
  case backward =>
    change Leads _ _ (front ++ back).reverse none
    rw [List.reverse_append]
    refine (h.backward_of_split hsplit).remove hnodup' (fun i hi => ?_) ?_
    · simp [hlink, hi, hnext]
    · simp [Arena.unlinkFree, tail_precede, hnext]

/-- A slot is put behind the last one without pins. -/
theorem Represents.pushFree (h : arena.Represents pool) (hnodup : pool.idle.Nodup)
    (hlt : ∀ i ∈ pool.idle, i < pool.entries.size) (hslot : slot < pool.entries.size)
    (hmem : slot ∉ pool.idle) :
    (arena.pushFree slot).Represents ⟨pool.entries, pool.chains, pool.idle ++ [slot]⟩ := by
  have htail : arena.tail = pool.idle.getLast? := by
    rw [h.backward.start_eq, List.head?_reverse]
  have hne : arena.tail ≠ some slot := fun he => hmem (List.mem_of_getLast? (htail ▸ he))
  have hlink (kind : Link) (i : Nat) : (arena.pushFree slot).linkAt kind i = _ :=
    linkAt_pushFree (h.size_eq ▸ hslot) fun j hj =>
      h.size_eq ▸ hlt j (List.mem_of_getLast? (htail ▸ hj))
  constructor
  case size_eq => exact size_pushFree.trans h.size_eq
  case entryAt_eq => exact fun i => entryAt_pushFree.trans (h.entryAt_eq i)
  case chain =>
    intro chain
    rw [bucket_pushFree]
    exact (h.chain chain).congr fun i _ => by simp [hlink]
  case forward =>
    refine h.forward.snoc hnodup (fun i hi => ?_) ?_ ?_
    · have hi : i ≠ slot := fun he => hmem (he ▸ hi)
      simp [hlink, hi, htail]
    · simp [hlink, hne]
    · simp [Arena.pushFree, head_follow, htail]
  case backward =>
    change Leads _ _ (pool.idle ++ [slot]).reverse none
    rw [List.reverse_append, List.reverse_singleton, List.singleton_append]
    refine ⟨by simp [Arena.pushFree, tail_precede], ?_⟩
    have hstart : (arena.pushFree slot).linkAt .previous slot = arena.tail := by simp [hlink]
    rw [hstart]
    refine h.backward.congr fun i hi => ?_
    have hi : i ≠ slot := fun he => hmem (List.mem_reverse.mp (he ▸ hi))
    simp [hlink, hi]

theorem lt_of_mem_idle (hv : pool.Valid size) (i : Nat) (hi : i ∈ pool.idle) :
    i < pool.entries.size := lt_of_pinsAt ((hv.mem_idle i).mp hi)

/-- Checking a block out again. -/
theorem Represents.pin (h : arena.Represents pool) (hv : pool.Valid size) (slot : Nat) :
    (arena.pin slot).Represents (pool.pin slot) := by
  unfold Arena.pin
  rw [h.pinsAt_eq]
  have hpool : pool.pin slot = Pool.changeEntry slot
      (fun entry => { entry with pins := entry.pins + 1 })
      ⟨pool.entries, pool.chains, pool.idle.erase slot⟩ := rfl
  rw [hpool]
  by_cases hpins : pool.pinsAt slot = some 0
  · rw [if_pos hpins]
    exact (h.unlinkFree hv.nodup_idle (lt_of_mem_idle hv) ((hv.mem_idle slot).mpr hpins)).changeEntry
      slot _
  · rw [if_neg hpins, List.erase_of_not_mem (fun hmem => hpins ((hv.mem_idle slot).mp hmem))]
    exact h.changeEntry slot _

/-- Giving a block back. -/
theorem Represents.unpin (h : arena.Represents pool) (hv : pool.Valid size) {pins : Nat}
    (hpins : pool.pinsAt slot = some (pins + 1)) :
    (arena.unpin slot).Represents (pool.unpin slot) := by
  have hlowered := h.changeEntry slot fun entry => { entry with pins := entry.pins - 1 }
  have hpins' : (pool.changeEntry slot fun entry => { entry with pins := entry.pins - 1 }).pinsAt
      slot = some pins := by
    have hunpin : (pool.unpin slot).pinsAt slot = _ := Pool.pinsAt_unpin slot
    rwa [if_pos rfl, hpins, Option.map_some, Nat.add_sub_cancel] at hunpin
  have hsize : (pool.changeEntry slot fun entry => { entry with pins := entry.pins - 1 }).entries.size
      = pool.entries.size := Array.size_modify
  have hpool : pool.unpin slot = ⟨(pool.unpin slot).entries, pool.chains, (pool.unpin slot).idle⟩ :=
    rfl
  unfold Arena.unpin
  dsimp only
  rw [hlowered.pinsAt_eq, hpins', hpool, Pool.idle_unpin, hpins]
  by_cases hzero : pins = 0
  · subst hzero
    rw [if_pos rfl, if_pos rfl]
    refine hlowered.pushFree hv.nodup_idle (fun i hi => hsize ▸ lt_of_mem_idle hv i hi)
      (hsize ▸ lt_of_pinsAt hpins) fun hmem => ?_
    rw [(hv.mem_idle slot).mp hmem] at hpins
    cases hpins
  · rw [if_neg (by simpa using hzero), if_neg (by simpa using hzero)]
    exact hlowered

/-! ## A slot for a block -/

section

variable {chain : Fin chainCount} {before : Option Nat}

/-- Makes `target` what comes after the slot `before` in a chain, or what the chain starts with. -/
def rechain (chain : Fin chainCount) : (before target : Option Nat) → Arena → Arena
  | none, target, arena => arena.setBucket chain target
  | some before, target, arena => arena.setLink .chain before target

@[simp] theorem size_rechain :
    (arena.rechain chain before target).cells.size = arena.cells.size := by
  cases before with
  | none => rfl
  | some before => exact size_setLink

@[simp] theorem entryAt_rechain : (arena.rechain chain before target).entryAt i = arena.entryAt i := by
  cases before with
  | none => rfl
  | some before => exact entryAt_setLink

@[simp] theorem head_rechain : (arena.rechain chain before target).head = arena.head := by
  cases before <;> rfl

@[simp] theorem tail_rechain : (arena.rechain chain before target).tail = arena.tail := by
  cases before <;> rfl

theorem bucket_rechain (chain' : Fin chainCount) :
    (arena.rechain chain before target).bucket chain' =
      if chain' = chain ∧ before = none then target else arena.bucket chain' := by
  cases before with
  | none => simp only [rechain, bucket_setBucket, and_true]
  | some before => simp [rechain]

theorem linkAt_rechain (h : ∀ j, before = some j → j < arena.cells.size) :
    (arena.rechain chain before target).linkAt kind i =
      if kind = .chain ∧ before = some i then target else arena.linkAt kind i := by
  cases before with
  | none => simp [rechain]
  | some before =>
    simp only [rechain, linkAt_setLink (h before rfl), Option.some.injEq, eq_comm]

end

/-- A slot without its block and without the link in its chain. -/
def cut (slot : Nat) (arena : Arena) : Arena :=
  (arena.changeEntry slot fun entry => { entry with block := none }).setLink .chain slot none

theorem linkAt_cut (h : slot < arena.cells.size) : (arena.cut slot).linkAt kind i =
    if kind = .chain ∧ i = slot then none else arena.linkAt kind i := by
  rw [cut, linkAt_setLink (by simpa using h), linkAt_changeEntry]

/-- A slot is taken out of a chain by leading what is in front of it to what is behind it. -/
theorem hashRemove_eq {front back : List Nat} (hb : arena.blockAt slot = some block)
    (h : Leads (arena.linkAt .chain) (arena.bucket (chainOf block)) (front ++ slot :: back) none)
    (hnodup : (front ++ slot :: back).Nodup) (hslot : slot < arena.cells.size)
    (hfuel : front.length ≤ arena.cells.size) :
    arena.hashRemove slot =
      (arena.cut slot).rechain (chainOf block) front.getLast? (arena.linkAt .chain slot) := by
  obtain ⟨hfront, -⟩ := leads_split.mp h
  have hnot := notMem_front hnodup
  unfold hashRemove
  rw [hb]
  -- Chains are linked one way only: without a slot in front the bucket is changed, and else the
  -- last one there, which has to be searched for.
  by_cases hempty : front = []
  · subst hempty
    have hstart : (arena.cut slot).bucket (chainOf block) = some slot := hfront
    exact if_pos hstart
  · have hstart : (arena.cut slot).bucket (chainOf block) ≠ some slot := by
      intro he
      cases front with
      | nil => exact hempty rfl
      | cons first rest =>
        have := he.symm.trans hfront.1
        cases this
        exact hnot (List.mem_cons_self ..)
    have hcut : Leads ((arena.cut slot).linkAt .chain) ((arena.cut slot).bucket (chainOf block))
        front (some slot) := hfront.congr fun i hi => by
      rw [linkAt_cut hslot, if_neg]
      rintro ⟨-, rfl⟩
      exact hnot hi
    have hfound := predecessor?_eq_getLast? hcut hempty hnot
      (show front.length ≤ (arena.cut slot).cells.size by simpa [cut] using hfuel)
    obtain ⟨last, hlast⟩ : ∃ last, front.getLast? = some last :=
      ⟨front.getLast hempty, List.getLast?_eq_some_getLast hempty⟩
    rw [hlast] at hfound ⊢
    unfold cut at hfound
    refine (if_neg hstart).trans ?_
    rw [hfound]
    rfl

theorem getElem?_modify_unbind (i : Nat) :
    (pool.entries.modify slot fun entry => { entry with block := none })[i]? =
      if slot = i then (pool.entries[i]?).map fun entry => { entry with block := none }
      else pool.entries[i]? := Array.getElem?_modify

/-- A slot that has no block does not change when it is taken from its block. -/
theorem getElem?_modify_unbind_of_unbound (hb : pool.blockAt slot = none) (i : Nat) :
    (pool.entries.modify slot fun entry => { entry with block := none })[i]? =
      pool.entries[i]? := by
  rw [getElem?_modify_unbind]
  split
  · next hi =>
    subst hi
    cases he : pool.entries[slot]? with
    | none => rfl
    | some entry =>
      rw [Pool.blockAt_of_entry he] at hb
      rw [Option.map_some, ← hb]
  · rfl

/-- A bound slot is taken out of the middle of its chain. -/
theorem Represents.exists_rechain (h : arena.Represents pool) (hc : pool.Chained size)
    (hb : pool.blockAt slot = some block) :
    ∃ front back, pool.chains.get (chainOf block) = front ++ slot :: back ∧
      arena.hashRemove slot =
        (arena.cut slot).rechain (chainOf block) front.getLast? (arena.linkAt .chain slot) ∧
      ∀ kind i, (arena.hashRemove slot).linkAt kind i =
        if kind = .chain ∧ front.getLast? = some i then arena.linkAt .chain slot
        else if kind = .chain ∧ i = slot then none else arena.linkAt kind i := by
  have hmem : slot ∈ pool.chains[chainOf block] := (hc.mem_chain _ _).mpr ⟨block, hb, rfl⟩
  obtain ⟨front, back, hsplit⟩ := List.append_of_mem hmem
  have hchain := h.chain (chainOf block)
  have hnodup := hc.nodup_chain (chainOf block)
  have hlength : pool.chains[chainOf block].length ≤ arena.cells.size := h.length_chain_le hc _
  rw [hsplit] at hchain hnodup hlength
  have hslot : slot < arena.cells.size := h.size_eq ▸ lt_of_blockAt hb
  have hremove := hashRemove_eq ((h.blockAt_eq slot).trans hb) hchain hnodup hslot
    (by simp at hlength; omega)
  have hbefore (i : Nat) (hi : front.getLast? = some i) : i < (arena.cut slot).cells.size := by
    rw [show (arena.cut slot).cells.size = arena.cells.size by simp [cut], h.size_eq]
    have hlast : i ∈ pool.chains[chainOf block] := by
      rw [hsplit]
      exact List.mem_append_left _ (List.mem_of_getLast? hi)
    exact lt_of_mem_chain hc hlast
  refine ⟨front, back, hsplit, hremove, fun kind i => ?_⟩
  rw [hremove, linkAt_rechain hbefore, linkAt_cut hslot]

/-- The chain of the block leads past the slot, and the other chains do not change. -/
theorem Represents.leads_hashRemove (h : arena.Represents pool) (hc : pool.Chained size)
    (hb : pool.blockAt slot = some block) (chain : Fin chainCount) :
    Leads ((arena.hashRemove slot).linkAt .chain) ((arena.hashRemove slot).bucket chain)
      ((pool.unbind slot).chains.get chain) none := by
  obtain ⟨front, back, hsplit, hremove, hlink⟩ := h.exists_rechain hc hb
  have hsplit : pool.chains[chainOf block] = front ++ slot :: back := hsplit
  change Leads _ _ (pool.unbind slot).chains[chain] none
  rw [Pool.chains_unbind, hremove, bucket_rechain, ← hremove]
  simp only [hb, Option.map_some, Option.some.injEq]
  by_cases he : chainOf block = chain
  · subst he
    have hchain := h.chain (chainOf block)
    have hnodup := hc.nodup_chain (chainOf block)
    rw [hsplit] at hchain hnodup
    rw [if_pos rfl, hsplit, erase_middle hnodup]
    refine hchain.remove hnodup (fun i hi => ?_) ?_
    · simp [hlink, hi]
    · simp only [true_and, List.getLast?_eq_none_iff]
      rfl
  · -- No slot of another chain is touched.
    rw [if_neg he, if_neg fun hs => he hs.1.symm]
    have hout (i : Nat) (hi : i ∈ front ++ slot :: back) : i ∉ pool.chains[chain] :=
      fun hi' => he (hc.chain_eq (hsplit ▸ hi) hi')
    refine (h.chain chain).congr fun i hi => ?_
    have hne : i ≠ slot := fun hs => hout slot (by simp) (hs ▸ hi)
    have hlast : front.getLast? ≠ some i := fun hl =>
      hout i (List.mem_append_left _ (List.mem_of_getLast? hl)) hi
    simp [hlink, hne, hlast]

/-- A slot is taken from its block. -/
theorem Represents.hashRemove (h : arena.Represents pool) (hc : pool.Chained size) (slot : Nat) :
    (arena.hashRemove slot).Represents
      ⟨pool.entries.modify slot fun entry => { entry with block := none },
        Pool.unchain slot (pool.blockAt slot) pool.chains, pool.idle⟩ := by
  rcases Option.eq_none_or_eq_some (pool.blockAt slot) with hb | ⟨block, hb⟩
  · have harena : arena.hashRemove slot = arena := by
      rw [Arena.hashRemove, h.blockAt_eq, hb]
    rw [harena, hb]
    exact ⟨h.size_eq.trans Array.size_modify.symm,
      fun i => (h.entryAt_eq i).trans (getElem?_modify_unbind_of_unbound hb i).symm, h.chain,
      h.forward, h.backward⟩
  · obtain ⟨front, back, -, hremove, hlink⟩ := h.exists_rechain hc hb
    constructor
    case size_eq =>
      rw [hremove, size_rechain, cut, size_setLink, size_changeEntry, h.size_eq]
      exact Array.size_modify.symm
    case entryAt_eq =>
      intro i
      rw [hremove, entryAt_rechain, cut, entryAt_setLink, entryAt_changeEntry, h.entryAt_eq]
      exact (getElem?_modify_unbind i).symm
    case chain => exact h.leads_hashRemove hc hb
    case forward =>
      rw [hremove, head_rechain, ← hremove]
      exact h.forward.congr fun i _ => by simp [hlink]
    case backward =>
      rw [hremove, tail_rechain, ← hremove]
      exact h.backward.congr fun i _ => by simp [hlink]

/-- The slot that was released longest ago is taken for another block. -/
theorem Represents.unbind (h : arena.Represents pool) (hv : pool.Valid size)
    (hmem : slot ∈ pool.idle) :
    ((arena.unlinkFree slot).hashRemove slot).Represents (pool.unbind slot) := by
  have hunlinked := h.unlinkFree hv.nodup_idle (lt_of_mem_idle hv) hmem
  have hc : Pool.Chained ⟨pool.entries, pool.chains, pool.idle.erase slot⟩ size :=
    ⟨hv.mem_chain, hv.nodup_chain, hv.blockAt_inj, hv.lt_size, hv.bound⟩
  exact hunlinked.hashRemove hc slot

/-- A new slot. -/
theorem Represents.grow (h : arena.Represents pool) : arena.grow.Represents pool.grow := by
  have hcells (i : Nat) : arena.grow.cells[i]? =
      if i = arena.cells.size then some Cell.unbound else arena.cells[i]? := Array.getElem?_push
  have hlink (kind : Link) (i : Nat) : arena.grow.linkAt kind i = arena.linkAt kind i := by
    rw [linkAt, hcells, linkAt]
    split
    · next hi =>
      rw [hi, Array.getElem?_eq_none (Nat.le_refl _)]
      cases kind <;> rfl
    · rfl
  refine ⟨?_, fun i => ?_, fun chain => (h.chain chain).congr fun _ _ => hlink ..,
    h.forward.congr fun _ _ => hlink .., h.backward.congr fun _ _ => hlink ..⟩
  · change (arena.cells.push _).size = (pool.entries.push _).size
    rw [Array.size_push, Array.size_push, h.size_eq]
  · rw [entryAt, hcells, Pool.getElem?_entries_grow, h.size_eq]
    split
    · rfl
    · exact h.entryAt_eq i

/-- A slot that is in no chain is bound to a block. -/
theorem Represents.bindTo (h : arena.Represents pool) (hr : pool.Reserved size slot) (block : Nat)
    (data : Block) :
    ((arena.changeEntry slot fun entry => ⟨entry.block, data, false, 1⟩).hashInsert slot
      block).Represents (pool.bindTo slot block data) := by
  obtain ⟨entry, hentry⟩ := Option.isSome_iff_exists.mp hr.exists_entry
  have hslot : slot < arena.cells.size := h.size_eq ▸ (Array.getElem?_eq_some_iff.mp hentry).1
  have hout (chain : Fin chainCount) : slot ∉ pool.chains[chain] := by
    rw [hr.mem_chain, hr.blockAt_eq_none]
    simp
  -- Only the chain link of this slot is set; those of the queue stay.
  have hlink (kind : Link) (i : Nat) :
      ((arena.changeEntry slot fun entry => ⟨entry.block, data, false, 1⟩).hashInsert slot
        block).linkAt kind i =
        if kind = .chain ∧ i = slot then arena.bucket (chainOf block) else arena.linkAt kind i := by
    rw [hashInsert, linkAt_setBucket, linkAt_setLink (by simpa using hslot)]
    simp
  constructor
  case size_eq =>
    have : (pool.bindTo slot block data).entries.size = pool.entries.size := Array.size_modify
    rw [this, ← h.size_eq, hashInsert, size_setBucket, size_setLink, size_changeEntry,
      size_changeEntry]
  case entryAt_eq =>
    intro i
    rw [hashInsert, entryAt_setBucket, entryAt_setLink, entryAt_changeEntry, entryAt_changeEntry,
      h.entryAt_eq, Pool.getElem?_entries_bindTo]
    split
    · rw [Option.map_map]
      rfl
    · rfl
  case chain =>
    intro chain
    -- The slot is in no chain yet, so what was linked from the bucket still is.
    have hrest : Leads (((arena.changeEntry slot fun entry => ⟨entry.block, data, false, 1⟩).hashInsert
        slot block).linkAt .chain) (arena.bucket chain) pool.chains[chain] none := by
      refine (h.chain chain).congr fun i hi => ?_
      have hne : i ≠ slot := fun he => hout chain (he ▸ hi)
      simp [hlink, hne]
    rw [Pool.chains_bindTo, hashInsert, bucket_setBucket, ← hashInsert]
    by_cases he : chainOf block = chain
    · subst he
      have hslot : ((arena.changeEntry slot fun entry => ⟨entry.block, data, false, 1⟩).hashInsert
          slot block).linkAt .chain slot = arena.bucket (chainOf block) := by simp [hlink]
      rw [if_pos rfl, if_pos rfl]
      exact ⟨rfl, hslot ▸ hrest⟩
    · rw [if_neg (Ne.symm he), if_neg he]
      exact hrest
  case forward => exact h.forward.congr fun i _ => by simp [hlink]
  case backward => exact h.backward.congr fun i _ => by simp [hlink]

/-! ## New arenas -/

theorem ofSize_succ (size : Nat) :
    Pool.ofSize (size + 1) =
      ⟨(Pool.ofSize size).grow.entries, (Pool.ofSize size).grow.chains,
        (Pool.ofSize size).grow.idle ++ [size]⟩ := by
  simp only [Pool.ofSize, Pool.grow, List.range_succ, Array.replicate_succ]

/-- A new arena represents a new pool. -/
theorem represents_ofSize (size : Nat) : (ofSize size).Represents (Pool.ofSize size) := by
  induction size with
  | zero =>
    refine ⟨rfl, fun i => rfl, fun chain => ?_, rfl, rfl⟩
    have hbucket : (ofSize 0).bucket chain = none :=
      Vector.getElem_replicate (n := chainCount) chain.isLt
    simp [hbucket, Pool.ofSize, Leads]
  | succ size ih =>
    have hsize : (Pool.ofSize size).entries.size = size := Array.size_replicate
    have hgrown : (Pool.ofSize size).grow.entries.size = size + 1 :=
      (Array.size_push _).trans (congrArg (· + 1) hsize)
    rw [ofSize, ofSize_succ]
    refine ih.grow.pushFree List.nodup_range (fun i hi => ?_) ?_ List.not_mem_range_self
    · have hi : i < size := List.mem_range.mp hi
      omega
    · omega

end Diskette.Arena
