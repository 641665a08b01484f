import Diskette.Proofs.BlockArray
import Diskette.Proofs.Pool.Valid
import Mathlib.Data.Set.Insert

/-!
# What a pool shows

A pool before a disk shows an array of its own: the bytes in the entries for the blocks that it
holds, the bytes on the disk for the others. Changes that were made through a handle and not yet
recorded are kept apart: `unmarked` is the set of blocks that have one, and each of them is pinned.

* `Caches`: the entries, the disk and the array that is shown fit together.
* `Caches.changeData`, `Caches.mark`, `Caches.writeOut`: a change, its record and its way to the
  disk.
* `Caches.unbind`, `Caches.bindTo`: a buffer is given to another block and nothing is lost.
-/

namespace Diskette.Pool

variable {pool : Pool} {size slot block : Nat} {base shown : Nat → Block} {unmarked : Set Nat}

/-- The pool shows the array `shown` in front of a disk that holds `base`, and the changes of the
blocks in `unmarked` are not recorded yet. -/
structure Caches (pool : Pool) (base shown : Nat → Block) (unmarked : Set Nat) : Prop where
  data_eq {slot block : Nat} {entry : Entry} (h : pool.entries[slot]? = some entry)
    (hb : entry.block = some block) : entry.data = shown block
  clean {slot block : Nat} {entry : Entry} (h : pool.entries[slot]? = some entry)
    (hb : entry.block = some block) (hd : entry.dirty = false) (hu : block ∉ unmarked) :
    base block = shown block
  absent {block : Nat} (h : ∀ slot, pool.blockAt slot ≠ some block) : base block = shown block
  pinned {block : Nat} (h : block ∈ unmarked) :
    ∃ (slot : Nat) (entry : Entry),
      pool.entries[slot]? = some entry ∧ entry.block = some block ∧ 0 < entry.pins

/-! ## Changes of one entry -/

/-- `pool'` has the entries of `pool`, but for one that was changed. -/
def EntryChanged (slot : Nat) (change : Entry → Entry) (pool pool' : Pool) : Prop :=
  ∀ i, pool'.entries[i]? =
    if slot = i then (pool.entries[i]?).map change else pool.entries[i]?

variable {pool' : Pool} {change : Entry → Entry} {entry : Entry}

/-- An entry after a change is an old one or the changed one. -/
theorem EntryChanged.cases (h : EntryChanged slot change pool pool') {i : Nat}
    (he : pool'.entries[i]? = some entry) :
    ∃ old, pool.entries[i]? = some old ∧ entry = if slot = i then change old else old := by
  rw [h i] at he
  split at he
  · next hi =>
    obtain ⟨old, hold, rfl⟩ := Option.map_eq_some_iff.mp he
    exact ⟨old, hold, by rw [if_pos hi]⟩
  · next hi => exact ⟨entry, he, by rw [if_neg hi]⟩

/-- Every slot has the entry that it had, changed if it is the one. -/
theorem EntryChanged.getElem? (h : EntryChanged slot change pool pool') {i : Nat}
    (he : pool.entries[i]? = some entry) :
    pool'.entries[i]? = some (if slot = i then change entry else entry) := by
  rw [h i]
  split <;> simp [he]

theorem EntryChanged.blockAt (h : EntryChanged slot change pool pool')
    (hb : ∀ e, (change e).block = e.block) (i : Nat) : pool'.blockAt i = pool.blockAt i := by
  unfold Pool.blockAt
  rw [h i]
  split
  · cases pool.entries[i]? <;> simp [hb]
  · rfl

/-- A block that has no slot after the change is not that of an entry before. -/
theorem EntryChanged.ne_of_absent (h : EntryChanged slot change pool pool')
    (hkeep : ∀ e, (change e).block = e.block) {i : Nat} (he : pool.entries[i]? = some entry)
    (hb : entry.block = some block) {other : Nat} (habsent : ∀ i, pool'.blockAt i ≠ some other) :
    other ≠ block := by
  rintro rfl
  refine habsent i ?_
  rw [h.blockAt hkeep]
  exact (blockAt_of_entry he).trans hb

/-- A change that keeps the block and the bytes, takes no mark away and leaves a pin on a block
with a change that is not recorded. -/
theorem Caches.modify (h : pool.Caches base shown unmarked)
    (hc : EntryChanged slot change pool pool')
    (hb : ∀ e, (change e).block = e.block) (hdata : ∀ e, (change e).data = e.data)
    (hdirty : ∀ e, (change e).dirty = false → e.dirty = false)
    (hpins : ∀ e block, pool.entries[slot]? = some e → e.block = some block → block ∈ unmarked →
      0 < e.pins → 0 < (change e).pins) :
    pool'.Caches base shown unmarked where
  data_eq he hblock := by
    obtain ⟨old, hold, rfl⟩ := hc.cases he
    split at hblock
    · rw [if_pos ‹_›, hdata]
      exact h.data_eq hold (hb old ▸ hblock)
    · rw [if_neg ‹_›]
      exact h.data_eq hold hblock
  clean he hblock hd hu := by
    obtain ⟨old, hold, rfl⟩ := hc.cases he
    split at hblock
    · rw [if_pos ‹_›] at hd
      exact h.clean hold (hb old ▸ hblock) (hdirty old hd) hu
    · rw [if_neg ‹_›] at hd
      exact h.clean hold hblock hd hu
  absent hblock := h.absent fun i => by rw [← hc.blockAt hb]; exact hblock i
  pinned hu := by
    obtain ⟨i, e, he, hblock, hp⟩ := h.pinned hu
    refine ⟨i, _, hc.getElem? he, ?_, ?_⟩
    · split
      · exact (hb e).trans hblock
      · exact hblock
    · split
      · next hi => exact hpins e _ (hi ▸ he) hblock hu hp
      · exact hp

/-- A block whose entry is marked as changed has no change that is not recorded. -/
theorem Caches.unmark (h : pool.Caches base shown unmarked)
    (hd : ∀ (i : Nat) (e : Entry), pool.entries[i]? = some e → e.block = some block →
      e.dirty = true) :
    pool.Caches base shown (unmarked \ {block}) where
  data_eq := h.data_eq
  clean he hb hdirty hu := by
    refine h.clean he hb hdirty fun hmem => hu ⟨hmem, ?_⟩
    rintro rfl
    rw [hd _ _ he hb] at hdirty
    cases hdirty
  absent := h.absent
  pinned hu := h.pinned hu.1

/-- New bytes in a pinned entry. -/
theorem Caches.changeData (h : pool.Caches base shown unmarked) (hv : pool.Valid size)
    (he : pool.entries[slot]? = some entry) (hb : entry.block = some block) (hp : 0 < entry.pins)
    (new : Block → Block) :
    (pool.changeEntry slot fun e => { e with data := new e.data }).Caches base
      (Function.update shown block (new (shown block))) (insert block unmarked) := by
  have hc : EntryChanged slot (fun e => { e with data := new e.data }) pool
      (pool.changeEntry slot fun e => { e with data := new e.data }) :=
    getElem?_entries_changeEntry _
  -- No other slot has the block, so no other entry shows its bytes.
  have hother {i : Nat} {e : Entry} (hi : slot ≠ i) (hei : pool.entries[i]? = some e) :
      e.block ≠ some block := fun hbi => hi
    (hv.blockAt_inj ((blockAt_of_entry he).trans hb) ((blockAt_of_entry hei).trans hbi))
  constructor
  case data_eq =>
    intro i b e' he' hb'
    obtain ⟨old, hold, rfl⟩ := hc.cases he'
    split at hb'
    · next hi =>
      subst hi
      rw [he] at hold
      cases hold
      have : block = b := Option.some.inj (hb.symm.trans hb')
      subst this
      simp [h.data_eq he hb]
    · next hi =>
      have hne : b ≠ block := by
        rintro rfl
        exact hother hi hold hb'
      rw [if_neg hi, Function.update_of_ne hne]
      exact h.data_eq hold hb'
  -- Clean entries other than this one agree with the disk as before; this one is unmarked now.
  case clean =>
    intro i b e' he' hb' hd' hu'
    have hne : b ≠ block := fun hbb => hu' (hbb ▸ Set.mem_insert _ _)
    obtain ⟨old, hold, rfl⟩ := hc.cases he'
    rw [Function.update_of_ne hne]
    refine h.clean hold ?_ ?_ fun hmem => hu' (Set.mem_insert_of_mem _ hmem)
    · split at hb' <;> exact hb'
    · split at hd' <;> exact hd'
  case absent =>
    intro b habsent
    rw [Function.update_of_ne (hc.ne_of_absent (fun _ => rfl) he hb habsent)]
    exact h.absent fun i => by rw [← hc.blockAt fun _ => rfl]; exact habsent i
  case pinned =>
    intro b hu
    obtain ⟨i, e, hei, hbi, hpi⟩ : ∃ (i : Nat) (e : Entry), pool.entries[i]? = some e ∧
        e.block = some b ∧ 0 < e.pins := by
      rcases Set.mem_insert_iff.mp hu with rfl | hu
      · exact ⟨slot, entry, he, hb, hp⟩
      · exact h.pinned hu
    refine ⟨i, _, hc.getElem? hei, ?_, ?_⟩
    · split <;> exact hbi
    · split <;> exact hpi

/-- The bytes of an entry are written to the disk. -/
theorem Caches.writeOut (h : pool.Caches base shown unmarked)
    (he : pool.entries[slot]? = some entry) (hb : entry.block = some block) :
    (pool.changeEntry slot fun e => { e with dirty := false }).Caches
      (Function.update base block entry.data) shown unmarked := by
  have hc : EntryChanged slot (fun e => { e with dirty := false }) pool
      (pool.changeEntry slot fun e => { e with dirty := false }) :=
    getElem?_entries_changeEntry _
  constructor
  case data_eq =>
    intro i b e' he' hb'
    obtain ⟨old, hold, rfl⟩ := hc.cases he'
    split at hb'
    · have hdata : old.data = shown b := h.data_eq hold hb'
      rw [if_pos ‹_›]
      exact hdata
    · rw [if_neg ‹_›]
      exact h.data_eq hold hb'
  case clean =>
    intro i b e' he' hb' hd' hu
    -- The block just written agrees with the disk by the write, any other one as before.
    by_cases hbb : b = block
    · subst hbb
      rw [Function.update_self, h.data_eq he hb]
    · obtain ⟨old, hold, rfl⟩ := hc.cases he'
      rw [Function.update_of_ne hbb]
      split at hb'
      · next hi =>
        subst hi
        rw [he] at hold
        cases hold
        exact absurd (Option.some.inj (hb'.symm.trans hb)) hbb
      · rw [if_neg ‹_›] at hd'
        exact h.clean hold hb' hd' hu
  case absent =>
    intro b habsent
    rw [Function.update_of_ne (hc.ne_of_absent (fun _ => rfl) he hb habsent)]
    exact h.absent fun i => by rw [← hc.blockAt fun _ => rfl]; exact habsent i
  case pinned =>
    intro b hu
    obtain ⟨i, e, hei, hbi, hpi⟩ := h.pinned hu
    refine ⟨i, _, hc.getElem? hei, ?_, ?_⟩
    · split <;> exact hbi
    · split <;> exact hpi

/-! ## A buffer for another block -/

/-- An idle entry that is up to date on the disk is taken from its block. -/
theorem Caches.unbind (h : pool.Caches base shown unmarked) (hv : pool.Valid size)
    (hi : slot ∈ pool.idle)
    (hclean : ∀ entry, pool.entries[slot]? = some entry → entry.dirty = false) :
    (pool.unbind slot).Caches base shown unmarked := by
  have hc : EntryChanged slot (fun e => { e with block := none }) pool (pool.unbind slot) :=
    getElem?_entries_unbind
  -- Unmarked changes keep their block pinned, and what is idle has no pins.
  have hfree {b : Nat} (hb : pool.blockAt slot = some b) : b ∉ unmarked := by
    intro hu
    obtain ⟨j, e, he, hbj, hp⟩ := h.pinned hu
    obtain rfl := hv.blockAt_inj hb ((blockAt_of_entry he).trans hbj)
    have hpins := (hv.mem_idle slot).mp hi
    rw [pinsAt_of_entry he, Option.some.injEq] at hpins
    omega
  constructor
  case data_eq =>
    intro i b e' he' hb'
    obtain ⟨old, hold, rfl⟩ := hc.cases he'
    split at hb'
    · cases hb'
    · rw [if_neg ‹_›]
      exact h.data_eq hold hb'
  case clean =>
    intro i b e' he' hb' hd' hu
    obtain ⟨old, hold, rfl⟩ := hc.cases he'
    split at hb'
    · cases hb'
    · rw [if_neg ‹_›] at hd'
      exact h.clean hold hb' hd' hu
  -- The block that leaves the pool was clean, so the disk has what the pool showed.
  case absent =>
    intro b habsent
    by_cases hb : pool.blockAt slot = some b
    · obtain ⟨e, he, hbe⟩ := blockAt_eq_some_iff.mp hb
      exact h.clean he hbe (hclean e he) (hfree hb)
    · refine h.absent fun i hbi => habsent i ?_
      rw [blockAt_unbind, if_neg ?_]
      · exact hbi
      · rintro rfl
        exact hb hbi
  case pinned =>
    intro b hu
    obtain ⟨i, e, hei, hbi, hpi⟩ := h.pinned hu
    have hne : slot ≠ i := by
      rintro rfl
      exact hfree ((blockAt_of_entry hei).trans hbi) hu
    exact ⟨i, _, hc.getElem? hei, by rw [if_neg hne]; exact hbi, by rw [if_neg hne]; exact hpi⟩

theorem Caches.grow (h : pool.Caches base shown unmarked) :
    pool.grow.Caches base shown unmarked := by
  have hold {i : Nat} {e : Entry} {b : Nat} (he : pool.grow.entries[i]? = some e)
      (hb : e.block = some b) : pool.entries[i]? = some e := by
    rw [getElem?_entries_grow] at he
    split at he
    · cases he
      cases hb
    · exact he
  refine ⟨fun he hb => h.data_eq (hold he hb) hb, fun he hb => h.clean (hold he hb) hb,
    fun habsent => h.absent fun i => by rw [← blockAt_grow]; exact habsent i, fun hu => ?_⟩
  obtain ⟨i, e, hei, hbi, hpi⟩ := h.pinned hu
  refine ⟨i, e, ?_, hbi, hpi⟩
  rw [getElem?_entries_grow, if_neg, hei]
  rintro rfl
  simp at hei

/-- A reserved slot is bound to a block that the pool does not hold, with its bytes on the disk. -/
theorem Caches.bindTo (h : pool.Caches base shown unmarked) (hr : pool.Reserved size slot)
    (hnew : ∀ i, pool.blockAt i ≠ some block) :
    (pool.bindTo slot block (base block)).Caches base shown unmarked := by
  have hc : EntryChanged slot (fun _ => ⟨some block, base block, false, 1⟩) pool
      (pool.bindTo slot block (base block)) := getElem?_entries_bindTo _
  constructor
  case data_eq =>
    intro i b e' he' hb'
    obtain ⟨old, hold, rfl⟩ := hc.cases he'
    split at hb'
    · cases hb'
      rw [if_pos ‹_›]
      exact h.absent hnew
    · rw [if_neg ‹_›]
      exact h.data_eq hold hb'
  case clean =>
    intro i b e' he' hb' hd' hu
    obtain ⟨old, hold, rfl⟩ := hc.cases he'
    split at hb'
    · cases hb'
      exact h.absent hnew
    · rw [if_neg ‹_›] at hd'
      exact h.clean hold hb' hd' hu
  case absent =>
    intro b habsent
    refine h.absent fun i hbi => habsent i ?_
    rw [hr.blockAt_bindTo, if_neg ?_]
    · exact hbi
    · rintro rfl
      rw [hr.blockAt_eq_none] at hbi
      cases hbi
  case pinned =>
    intro b hu
    obtain ⟨i, e, hei, hbi, hpi⟩ := h.pinned hu
    have hne : slot ≠ i := by
      rintro rfl
      have := (blockAt_of_entry hei).symm.trans hr.blockAt_eq_none
      rw [hbi] at this
      cases this
    exact ⟨i, _, hc.getElem? hei, by rw [if_neg hne]; exact hbi, by rw [if_neg hne]; exact hpi⟩

/-- A new pool shows what is on the disk. -/
theorem caches_ofSize (count : Nat) (base : Nat → Block) : (ofSize count).Caches base base ∅ := by
  have hblock {slot : Nat} {entry : Entry} (he : (ofSize count).entries[slot]? = some entry) :
      entry.block = none := by
    simp only [ofSize, Array.getElem?_replicate] at he
    split at he
    · cases he
      rfl
    · cases he
  exact ⟨fun he hb => by simp [hblock he] at hb, fun _ _ _ _ => rfl, fun _ => rfl,
    fun hu => absurd hu (Set.notMem_empty _)⟩

end Diskette.Pool
