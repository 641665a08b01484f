import Diskette.Cache.Pool
import Mathlib.Data.List.Nodup

/-!
# Well-formed pools

The chains, the idle slots and the entries of a pool describe the same thing three times. In a
well-formed pool they agree: a slot is in the chain of exactly the block that it is bound to, no
block is bound to two slots, and the idle slots are those without pins.

* `Valid.find?_eq_some_iff`: a block is found in the slot that is bound to it.
* `Valid.changeEntry`, `Valid.pin`, `Valid.unpin`: what happens to one slot keeps a pool well formed.
* `Valid.unbind`, `Valid.grow`: the two ways of getting a slot for a block reserve it.
* `Reserved.bindTo`: with the block in it, the pool is well formed again.
-/

namespace Diskette.Pool

variable {pool : Pool} {size slot block : Nat}

/-- The block that a slot is bound to. -/
def blockAt (pool : Pool) (slot : Nat) : Option Nat := (pool.entries[slot]?).bind (·.block)

/-- The number of pins of a slot. -/
def pinsAt (pool : Pool) (slot : Nat) : Option Nat := (pool.entries[slot]?).map (·.pins)

/-- The chains agree with the entries, and every block is one of the `size` blocks of the disk. -/
structure Chained (pool : Pool) (size : Nat) : Prop where
  mem_chain (chain : Fin chainCount) (slot : Nat) :
    slot ∈ pool.chains[chain] ↔ ∃ block, pool.blockAt slot = some block ∧ chainOf block = chain
  nodup_chain (chain : Fin chainCount) : pool.chains[chain].Nodup
  blockAt_inj {i j block : Nat} (hi : pool.blockAt i = some block)
    (hj : pool.blockAt j = some block) : i = j
  lt_size {slot block : Nat} (h : pool.blockAt slot = some block) : block < size
  bound {slot : Nat} {entry : Entry} (h : pool.entries[slot]? = some entry)
    (hd : entry.dirty = true ∨ 0 < entry.pins) : entry.block.isSome

/-- The chains, the idle slots and the entries agree. -/
structure Valid (pool : Pool) (size : Nat) : Prop extends Chained pool size where
  mem_idle (slot : Nat) : slot ∈ pool.idle ↔ pool.pinsAt slot = some 0
  nodup_idle : pool.idle.Nodup

/-- A pool that is well formed but for one slot, which is neither bound nor idle. -/
structure Reserved (pool : Pool) (size slot : Nat) : Prop extends Chained pool size where
  exists_entry : (pool.entries[slot]?).isSome
  blockAt_eq_none : pool.blockAt slot = none
  mem_idle (i : Nat) : i ∈ pool.idle ↔ pool.pinsAt i = some 0 ∧ i ≠ slot
  nodup_idle : pool.idle.Nodup

theorem blockAt_eq_some_iff :
    pool.blockAt slot = some block ↔
      ∃ entry, pool.entries[slot]? = some entry ∧ entry.block = some block := by
  simp [blockAt, Option.bind_eq_some_iff]

theorem blockAt_of_entry {entry : Entry} (h : pool.entries[slot]? = some entry) :
    pool.blockAt slot = entry.block := by
  simp [blockAt, h]

theorem pinsAt_of_entry {entry : Entry} (h : pool.entries[slot]? = some entry) :
    pool.pinsAt slot = some entry.pins := by
  simp [pinsAt, h]

/-- A slot is in one chain at most. -/
theorem Chained.chain_eq (h : pool.Chained size) {chain chain' : Fin chainCount}
    (hs : slot ∈ pool.chains[chain]) (hs' : slot ∈ pool.chains[chain']) : chain = chain' := by
  obtain ⟨block, hb, rfl⟩ := (h.mem_chain _ _).mp hs
  obtain ⟨block', hb', rfl⟩ := (h.mem_chain _ _).mp hs'
  rw [Option.some.inj (hb.symm.trans hb')]

/-! ## Finding a block -/

theorem Valid.find?_eq_some_iff (h : pool.Valid size) :
    pool.find? block = some slot ↔ pool.blockAt slot = some block := by
  let bound (i : Nat) : Bool := (pool.entries[i]?).any fun entry => entry.block = some block
  have hp (i : Nat) : bound i = true ↔ pool.blockAt i = some block := by
    rw [Option.any_eq_true, blockAt_eq_some_iff]
    simp
  have hfound {i : Nat} (hf : pool.find? block = some i) : pool.blockAt i = some block :=
    (hp i).mp (List.find?_some (p := bound) hf)
  constructor
  · exact hfound
  · intro hs
    have hmem : slot ∈ pool.chains[chainOf block] := (h.mem_chain _ _).mpr ⟨block, hs, rfl⟩
    obtain ⟨found, hf⟩ : ∃ found, pool.find? block = some found := by
      rw [← Option.isSome_iff_exists]
      exact List.find?_isSome.mpr ⟨slot, hmem, (hp slot).mpr hs⟩
    rw [hf, h.blockAt_inj (hfound hf) hs]

theorem Valid.find?_eq_none_iff (h : pool.Valid size) :
    pool.find? block = none ↔ ∀ slot, pool.blockAt slot ≠ some block := by
  rw [Option.eq_none_iff_forall_ne_some]
  exact forall_congr' fun _ => not_congr h.find?_eq_some_iff

/-! ## Changes of one entry -/

theorem getElem?_entries_changeEntry (change : Entry → Entry) (i : Nat) :
    (pool.changeEntry slot change).entries[i]? =
      if slot = i then (pool.entries[i]?).map change else pool.entries[i]? :=
  Array.getElem?_modify

theorem blockAt_changeEntry (change : Entry → Entry) (hc : ∀ e, (change e).block = e.block)
    (i : Nat) : (pool.changeEntry slot change).blockAt i = pool.blockAt i := by
  unfold blockAt
  rw [getElem?_entries_changeEntry]
  split
  · cases pool.entries[i]? <;> simp [hc]
  · rfl

theorem pinsAt_changeEntry (change : Entry → Entry) (hc : ∀ e, (change e).pins = e.pins)
    (i : Nat) : (pool.changeEntry slot change).pinsAt i = pool.pinsAt i := by
  unfold pinsAt
  rw [getElem?_entries_changeEntry]
  split
  · cases pool.entries[i]? <;> simp [hc]
  · rfl

/-- A change that keeps the block and the pins, and marks only a bound entry as changed. -/
theorem Valid.changeEntry (h : pool.Valid size) {change : Entry → Entry}
    (hb : ∀ e, (change e).block = e.block) (hp : ∀ e, (change e).pins = e.pins)
    (hd : ∀ e, pool.entries[slot]? = some e → (change e).dirty = true → e.block.isSome) :
    (pool.changeEntry slot change).Valid size where
  mem_chain chain i := by rw [blockAt_changeEntry _ hb]; exact h.mem_chain chain i
  nodup_chain := h.nodup_chain
  blockAt_inj hi hj := by
    rw [blockAt_changeEntry _ hb] at hi hj
    exact h.blockAt_inj hi hj
  mem_idle i := by rw [pinsAt_changeEntry _ hp]; exact h.mem_idle i
  nodup_idle := h.nodup_idle
  lt_size hi := by
    rw [blockAt_changeEntry _ hb] at hi
    exact h.lt_size hi
  bound := by
    intro i entry hi hpos
    rw [getElem?_entries_changeEntry] at hi
    split at hi
    · next hs =>
      subst hs
      obtain ⟨e, he, rfl⟩ := Option.map_eq_some_iff.mp hi
      rw [hb]
      rcases hpos with hpos | hpos
      · exact hd e he hpos
      · exact h.bound he (.inr (hp e ▸ hpos))
    · exact h.bound hi hpos

/-! ## Pins -/

theorem getElem?_entries_pin (i : Nat) :
    (pool.pin slot).entries[i]? =
      if slot = i then (pool.entries[i]?).map fun entry => { entry with pins := entry.pins + 1 }
      else pool.entries[i]? :=
  Array.getElem?_modify

theorem getElem?_entries_unpin (i : Nat) :
    (pool.unpin slot).entries[i]? =
      if slot = i then (pool.entries[i]?).map fun entry => { entry with pins := entry.pins - 1 }
      else pool.entries[i]? :=
  Array.getElem?_modify

@[simp] theorem blockAt_pin (i : Nat) : (pool.pin slot).blockAt i = pool.blockAt i :=
  blockAt_changeEntry (fun entry => { entry with pins := entry.pins + 1 })
    (fun _ => rfl) i

@[simp] theorem blockAt_unpin (i : Nat) : (pool.unpin slot).blockAt i = pool.blockAt i :=
  blockAt_changeEntry (fun entry => { entry with pins := entry.pins - 1 })
    (fun _ => rfl) i

theorem pinsAt_pin (i : Nat) :
    (pool.pin slot).pinsAt i =
      if slot = i then (pool.pinsAt i).map (· + 1) else pool.pinsAt i := by
  unfold pinsAt
  rw [getElem?_entries_pin]
  split <;> simp [Function.comp_def]

theorem pinsAt_unpin (i : Nat) :
    (pool.unpin slot).pinsAt i =
      if slot = i then (pool.pinsAt i).map (· - 1) else pool.pinsAt i := by
  unfold pinsAt
  rw [getElem?_entries_unpin]
  split <;> simp [Function.comp_def]

theorem Valid.pin (h : pool.Valid size) (hs : pool.blockAt slot = some block) :
    (pool.pin slot).Valid size where
  mem_chain chain i := by rw [blockAt_pin]; exact h.mem_chain chain i
  nodup_chain := h.nodup_chain
  blockAt_inj hi hj := by
    rw [blockAt_pin] at hi hj
    exact h.blockAt_inj hi hj
  mem_idle i := by
    change i ∈ pool.idle.erase slot ↔ _
    rw [h.nodup_idle.mem_erase_iff, h.mem_idle, pinsAt_pin]
    by_cases he : slot = i
    · simp [he]
    · simp [he, Ne.symm he]
  nodup_idle := h.nodup_idle.erase slot
  lt_size hi := h.lt_size (by rwa [blockAt_pin] at hi)
  bound := by
    intro i entry hi hpos
    rw [getElem?_entries_pin] at hi
    split at hi
    · next he =>
      subst he
      obtain ⟨e, hsome, rfl⟩ := Option.map_eq_some_iff.mp hi
      rw [blockAt_of_entry hsome] at hs
      simp [hs]
    · exact h.bound hi hpos

theorem idle_unpin :
    (pool.unpin slot).idle =
      if pool.pinsAt slot = some 1 then pool.idle ++ [slot] else pool.idle := by
  have : ((pool.entries[slot]?).any fun entry => entry.pins = 1) = true ↔
      pool.pinsAt slot = some 1 := by
    cases hs : pool.entries[slot]? <;> simp [pinsAt, hs]
  change (if _ then pool.idle ++ [slot] else pool.idle) = _
  simp only [this]

theorem Valid.unpin (h : pool.Valid size) {pins : Nat} (hs : pool.pinsAt slot = some (pins + 1)) :
    (pool.unpin slot).Valid size where
  mem_chain chain i := by rw [blockAt_unpin]; exact h.mem_chain chain i
  nodup_chain := h.nodup_chain
  blockAt_inj hi hj := by
    rw [blockAt_unpin] at hi hj
    exact h.blockAt_inj hi hj
  mem_idle i := by
    rw [idle_unpin, hs, pinsAt_unpin]
    -- The slot joins the queue exactly when its last pin goes.
    by_cases hp : pins = 0
    · rw [if_pos (by rw [hp]), List.mem_append, List.mem_singleton, h.mem_idle]
      by_cases he : slot = i
      · subst he
        simp [hs, hp]
      · simp [he, Ne.symm he]
    · rw [if_neg (by simpa using hp), h.mem_idle]
      by_cases he : slot = i
      · subst he
        simp [hs, hp]
      · simp [he]
  nodup_idle := by
    rw [idle_unpin]
    split
    · refine List.nodup_append.mpr ⟨h.nodup_idle, by simp, ?_⟩
      rintro i hi j hj rfl
      rw [List.mem_singleton] at hj
      subst hj
      rw [h.mem_idle, hs] at hi
      cases hi
    · exact h.nodup_idle
  lt_size hi := h.lt_size (by rwa [blockAt_unpin] at hi)
  -- A pin that is left over was there before, so the entry was bound already.
  bound := by
    intro i entry hi hpos
    rw [getElem?_entries_unpin] at hi
    split at hi
    · obtain ⟨e, hsome, rfl⟩ := Option.map_eq_some_iff.mp hi
      change e.block.isSome = true
      refine h.bound hsome (hpos.imp id fun hp => ?_)
      change 0 < e.pins - 1 at hp
      omega
    · exact h.bound hi hpos

/-! ## A slot for a block -/

theorem getElem?_entries_unbind (i : Nat) :
    (pool.unbind slot).entries[i]? =
      if slot = i then (pool.entries[i]?).map fun entry => { entry with block := none }
      else pool.entries[i]? :=
  Array.getElem?_modify

theorem blockAt_unbind (i : Nat) :
    (pool.unbind slot).blockAt i = if slot = i then none else pool.blockAt i := by
  unfold blockAt
  rw [getElem?_entries_unbind]
  split
  · cases pool.entries[i]? <;> rfl
  · rfl

theorem pinsAt_unbind (i : Nat) : (pool.unbind slot).pinsAt i = pool.pinsAt i :=
  pinsAt_changeEntry (fun entry => { entry with block := none }) (fun _ => rfl) i

theorem chains_unbind (chain : Fin chainCount) :
    (pool.unbind slot).chains[chain] =
      if (pool.blockAt slot).map chainOf = some chain then pool.chains[chain].erase slot
      else pool.chains[chain] := by
  change (unchain slot (pool.blockAt slot) pool.chains)[chain] = _
  cases pool.blockAt slot with
  | none => rfl
  | some block =>
    simp only [unchain, Fin.getElem_fin, Vector.getElem_set, Option.map_some, Option.some.injEq,
      Fin.ext_iff]
    split
    · next he => simp only [he]
    · rfl

/-- An idle entry that is up to date on the disk can be taken from its block. -/
theorem Valid.unbind (h : pool.Valid size) (hi : slot ∈ pool.idle)
    (hclean : ∀ entry, pool.entries[slot]? = some entry → entry.dirty = false) :
    (pool.unbind slot).Reserved size slot where
  mem_chain chain i := by
    rw [chains_unbind, blockAt_unbind]
    by_cases he : slot = i
    · subst he
      -- The slot has no block now, so it may be in no chain: it is erased from its own and was in
      -- no other.
      simp only [if_true, reduceCtorEq, false_and, exists_false, iff_false]
      split
      · exact fun hmem => ((h.nodup_chain chain).mem_erase_iff.mp hmem).1 rfl
      · next hne =>
        intro hmem
        obtain ⟨block, hb, hc⟩ := (h.mem_chain chain slot).mp hmem
        exact hne (by rw [hb, Option.map_some, hc])
    · rw [if_neg he, ← h.mem_chain chain i]
      split
      · rw [(h.nodup_chain chain).mem_erase_iff]
        exact and_iff_right (Ne.symm he)
      · exact Iff.rfl
  nodup_chain chain := by
    rw [chains_unbind]
    split
    · exact (h.nodup_chain chain).erase slot
    · exact h.nodup_chain chain
  blockAt_inj := by
    intro i j block hi hj
    rw [blockAt_unbind] at hi hj
    split at hi
    · cases hi
    · split at hj
      · cases hj
      · exact h.blockAt_inj hi hj
  lt_size := by
    intro i block hb
    rw [blockAt_unbind] at hb
    split at hb
    · cases hb
    · exact h.lt_size hb
  bound := by
    intro i entry he hpos
    rw [getElem?_entries_unbind] at he
    split at he
    -- An unbound entry may be neither dirty nor pinned; it is idle and up to date.
    · next hs =>
      subst hs
      obtain ⟨e, hsome, rfl⟩ := Option.map_eq_some_iff.mp he
      have hpins := (h.mem_idle slot).mp hi
      rw [pinsAt_of_entry hsome, Option.some.injEq] at hpins
      rcases hpos with hpos | hpos
      · rw [hclean e hsome] at hpos
        cases hpos
      · change 0 < e.pins at hpos
        omega
    · exact h.bound he hpos
  exists_entry := by
    have hpins := (h.mem_idle slot).mp hi
    rw [getElem?_entries_unbind, if_pos rfl, Option.isSome_map]
    cases hs : pool.entries[slot]? with
    | none => simp [pinsAt, hs] at hpins
    | some _ => rfl
  blockAt_eq_none := by rw [blockAt_unbind, if_pos rfl]
  mem_idle i := by
    change i ∈ pool.idle.erase slot ↔ _
    rw [h.nodup_idle.mem_erase_iff, h.mem_idle, pinsAt_unbind, and_comm]
  nodup_idle := h.nodup_idle.erase slot

theorem getElem?_entries_grow (i : Nat) :
    pool.grow.entries[i]? =
      if i = pool.entries.size then some Entry.unbound else pool.entries[i]? :=
  Array.getElem?_push

theorem blockAt_grow (i : Nat) : pool.grow.blockAt i = pool.blockAt i := by
  unfold blockAt
  rw [getElem?_entries_grow]
  split
  · next h => simp [h, Entry.unbound]
  · rfl

/-- A new entry can be given to a block. -/
theorem Valid.grow (h : pool.Valid size) : pool.grow.Reserved size pool.entries.size where
  mem_chain chain i := by rw [blockAt_grow]; exact h.mem_chain chain i
  nodup_chain := h.nodup_chain
  blockAt_inj hi hj := by
    rw [blockAt_grow] at hi hj
    exact h.blockAt_inj hi hj
  lt_size hb := h.lt_size (by rwa [blockAt_grow] at hb)
  bound := by
    intro i entry he hpos
    rw [getElem?_entries_grow] at he
    split at he
    · cases he
      simp [Entry.unbound] at hpos
    · exact h.bound he hpos
  exists_entry := by rw [getElem?_entries_grow, if_pos rfl]; rfl
  blockAt_eq_none := by rw [blockAt_grow]; simp [blockAt]
  mem_idle i := by
    change i ∈ pool.idle ↔ _
    rw [h.mem_idle]
    unfold pinsAt
    rw [getElem?_entries_grow]
    split
    · next hi => simp [hi]
    · next hi => simp [hi]
  nodup_idle := h.nodup_idle

theorem getElem?_entries_bindTo (data : Block) (i : Nat) :
    (pool.bindTo slot block data).entries[i]? =
      if slot = i then (pool.entries[i]?).map fun _ => ⟨some block, data, false, 1⟩
      else pool.entries[i]? :=
  Array.getElem?_modify

theorem Reserved.blockAt_bindTo (h : pool.Reserved size slot) (data : Block) (i : Nat) :
    (pool.bindTo slot block data).blockAt i = if slot = i then some block else pool.blockAt i := by
  unfold blockAt
  rw [getElem?_entries_bindTo]
  split
  · next hi =>
    obtain ⟨e, he⟩ := Option.isSome_iff_exists.mp h.exists_entry
    simp [← hi, he]
  · rfl

theorem chains_bindTo (data : Block) (chain : Fin chainCount) :
    (pool.bindTo slot block data).chains[chain] =
      if chainOf block = chain then slot :: pool.chains[chain] else pool.chains[chain] := by
  change (pool.chains.set (chainOf block) (slot :: pool.chains[chainOf block])
    (chainOf block).isLt)[chain] = _
  simp only [Fin.getElem_fin, Vector.getElem_set, Fin.ext_iff]
  split
  · next he => simp only [he]
  · rfl

/-- A reserved slot can be bound to a block that no other slot is bound to. -/
theorem Reserved.bindTo (h : pool.Reserved size slot) (hb : block < size)
    (hnew : ∀ i, pool.blockAt i ≠ some block) (data : Block) :
    (pool.bindTo slot block data).Valid size where
  mem_chain chain i := by
    rw [chains_bindTo, h.blockAt_bindTo]
    by_cases he : slot = i
    · subst he
      have hout : slot ∉ pool.chains[chain] := by
        rw [h.mem_chain, h.blockAt_eq_none]
        simp
      simp only [if_true, Option.some.injEq, exists_eq_left']
      split
      · next hc => simp [hc]
      · next hc => simpa [hc] using hout
    · rw [if_neg he, ← h.mem_chain chain i]
      split
      · rw [List.mem_cons]
        exact or_iff_right (Ne.symm he)
      · exact Iff.rfl
  nodup_chain chain := by
    rw [chains_bindTo]
    split
    · refine List.nodup_cons.mpr ⟨?_, h.nodup_chain chain⟩
      rw [h.mem_chain, h.blockAt_eq_none]
      simp
    · exact h.nodup_chain chain
  -- Two slots with one block: `hnew` rules out that just one of them is the slot bound here.
  blockAt_inj := by
    intro i j b hi hj
    rw [h.blockAt_bindTo] at hi hj
    split at hi <;> split at hj
    · next h1 h2 => exact h1.symm.trans h2
    · cases hi
      exact absurd hj (hnew j)
    · cases hj
      exact absurd hi (hnew i)
    · exact h.blockAt_inj hi hj
  lt_size := by
    intro i b hi
    rw [h.blockAt_bindTo] at hi
    split at hi
    · cases hi
      exact hb
    · exact h.lt_size hi
  bound := by
    intro i entry he hpos
    rw [getElem?_entries_bindTo] at he
    split at he
    · obtain ⟨_, _, rfl⟩ := Option.map_eq_some_iff.mp he
      rfl
    · exact h.bound he hpos
  mem_idle i := by
    change i ∈ pool.idle ↔ _
    rw [h.mem_idle]
    unfold pinsAt
    rw [getElem?_entries_bindTo]
    by_cases he : slot = i
    · subst he
      simp
    · simp [he, Ne.symm he]
  nodup_idle := h.nodup_idle

/-! ## New pools -/

/-- A new pool is well formed. -/
theorem valid_ofSize (count size : Nat) : (ofSize count).Valid size := by
  have hentry {slot : Nat} {entry : Entry} (he : (ofSize count).entries[slot]? = some entry) :
      entry = Entry.unbound := by
    simp only [ofSize, Array.getElem?_replicate] at he
    split at he
    · exact (Option.some.inj he).symm
    · cases he
  have hblock (slot : Nat) : (ofSize count).blockAt slot = none := by
    cases he : (ofSize count).entries[slot]? with
    | none => simp [blockAt, he]
    | some entry => rw [blockAt_of_entry he, hentry he]; rfl
  exact
    { mem_chain := by
        intro chain slot
        rw [show (ofSize count).chains[chain] = [] by simp [ofSize]]
        simp [hblock]
      nodup_chain := by simp [ofSize]
      blockAt_inj := by simp [hblock]
      lt_size := by simp [hblock]
      bound := by
        intro slot entry he hpos
        rw [hentry he] at hpos
        simp [Entry.unbound] at hpos
      mem_idle := by
        intro slot
        simp only [ofSize, pinsAt, List.mem_range, Array.getElem?_replicate]
        split <;> simp_all [Entry.unbound]
      nodup_idle := List.nodup_range }

end Diskette.Pool
