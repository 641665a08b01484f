import Diskette.Proofs.Arena.Actions
import Diskette.Proofs.Cache.Strategy

/-!
# Arenas stay well linked

What the links of an arena are for: a chain visits the slots bound to the blocks of its residue, the
list of the slots without pins visits just those, and both come to an end. This holds in every state
that requests lead to, whatever they ask for, with good handles or stale ones, and whatever the disk
refuses.

* `WellLinked`: what the links have to be like.
* `WellLinked.find?_eq_some_iff`: a block is found exactly if a slot is bound to it.
* `Represents.wellLinked`: the links of an arena that represents a well-formed pool.
* `wellLinked_performAll`: an arena in front of a device, after any sequence of requests.
-/

namespace Diskette

namespace Arena

open Pool (chainCount chainOf)

variable {arena : Arena} {pool : Pool} {size : Nat}

/-- The links of an arena lead where they should, in front of a disk of `size` blocks. -/
structure WellLinked (arena : Arena) (size : Nat) : Prop where
  /-- A chain ends, and on the way it visits every slot bound to a block of its residue, once, and no
  other. -/
  chain (chain : Fin chainCount) : ∃ slots,
    Leads (arena.linkAt .chain) (arena.bucket chain) slots none ∧ slots.Nodup ∧
      ∀ slot, slot ∈ slots ↔ ∃ block, arena.blockAt slot = some block ∧ chainOf block = chain
  /-- No block is bound to two slots. -/
  blockAt_inj {i j block : Nat} (hi : arena.blockAt i = some block)
    (hj : arena.blockAt j = some block) : i = j
  /-- The list of the slots without pins can be followed in both directions. -/
  free : ∃ slots,
    Leads (arena.linkAt .next) arena.head slots none ∧
      Leads (arena.linkAt .previous) arena.tail slots.reverse none ∧ slots.Nodup ∧
      ∀ slot, slot ∈ slots ↔ arena.pinsAt slot = some 0
  /-- A changed buffer is bound. -/
  bound {slot : Nat} {entry : Pool.Entry} (h : arena.entryAt slot = some entry)
    (hd : entry.dirty = true) : (arena.blockAt slot).isSome
  lt_size {slot block : Nat} (h : arena.blockAt slot = some block) : block < size

/-- The links of an arena that represents a well-formed pool. -/
theorem Represents.wellLinked (h : arena.Represents pool) (hv : pool.Valid size) :
    arena.WellLinked size where
  chain chain := by
    refine ⟨pool.chains[chain], h.chain chain, hv.nodup_chain chain, fun slot => ?_⟩
    simp only [h.blockAt_eq, hv.mem_chain]
  blockAt_inj hi hj := hv.blockAt_inj ((h.blockAt_eq _) ▸ hi) ((h.blockAt_eq _) ▸ hj)
  free := by
    refine ⟨pool.idle, h.forward, h.backward, hv.nodup_idle, fun slot => ?_⟩
    rw [h.pinsAt_eq, hv.mem_idle]
  bound he hd := by
    rw [h.entryAt_eq] at he
    rw [h.blockAt_eq, Pool.blockAt_of_entry he]
    exact hv.bound he (.inl hd)
  lt_size hb := hv.lt_size ((h.blockAt_eq _) ▸ hb)

theorem lt_of_blockAt_eq_some {slot block : Nat} (h : arena.blockAt slot = some block) :
    slot < arena.cells.size := by
  obtain ⟨entry, he, -⟩ := Option.bind_eq_some_iff.mp h
  obtain ⟨cell, hc, -⟩ := Option.map_eq_some_iff.mp he
  exact (Array.getElem?_eq_some_iff.mp hc).1

/-- The search along a chain comes to its end and finds the slot that is bound to the block. -/
theorem WellLinked.find?_eq_some_iff (h : arena.WellLinked size) {slot block : Nat} :
    arena.find? block = some slot ↔ arena.blockAt slot = some block := by
  obtain ⟨slots, hleads, hnodup, hmem⟩ := h.chain (chainOf block)
  have hlength : slots.length ≤ arena.cells.size := by
    refine length_le_of_nodup hnodup fun i hi => ?_
    obtain ⟨bound, hb, -⟩ := (hmem i).mp hi
    exact lt_of_blockAt_eq_some hb
  rw [find?, walk_eq_find? hleads hlength]
  constructor
  · intro hfound
    simpa using List.find?_some hfound
  · intro hb
    obtain ⟨found, hfound⟩ : ∃ found, slots.find? (fun i => arena.blockAt i = some block) =
        some found := by
      rw [← Option.isSome_iff_exists, List.find?_isSome]
      exact ⟨slot, (hmem slot).mpr ⟨block, hb, rfl⟩, by simpa using hb⟩
    have hbound : arena.blockAt found = some block := by simpa using List.find?_some hfound
    rw [hfound, h.blockAt_inj hbound hb]

/-- An arena in front of a device is well linked after any sequence of requests, and it answers as
the pooled cache does. -/
theorem wellLinked_performAll (device : Device) (host : Host) (size : Nat)
    (requests : List Request) :
    ∃ answers arena pool device' host',
      Request.performAll requests (ofSize (max size minPoolSize), device, host) =
        (answers, arena, device', host') ∧
      Request.performAll requests (Cache.ofPool device size, host) =
        (answers, ⟨.pooled pool, device'⟩, host') ∧
      arena.Represents pool ∧ device'.blocks = device.blocks ∧ arena.WellLinked device.blocks := by
  have hstart : Tied device.blocks (ofSize (max size minPoolSize), device, host)
      (Pool.ofSize (max size minPoolSize), device, host) :=
    ⟨rfl, rfl, represents_ofSize _, Pool.valid_ofSize _ _⟩
  obtain ⟨hanswers, htied⟩ := (alternates Device.steady).performAll requests hstart
  obtain ⟨arena, pool, ⟨device', host'⟩, harena, hpool⟩ := htied.exists_eq
  rw [harena, hpool] at htied
  have hcache := Cache.performAll_ofState requests
    (Pool.ofSize (max size minPoolSize), device, host)
  rw [hanswers, hpool] at hcache
  exact ⟨_, arena, pool, device', host', Prod.ext rfl harena, hcache, htied.represents,
    htied.blocks_eq, htied.represents.wellLinked htied.valid⟩

end Arena

end Diskette
