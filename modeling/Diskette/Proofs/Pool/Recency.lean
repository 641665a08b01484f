import Diskette.Proofs.Pool.Pins
import Diskette.Proofs.Pool.Slots
import Diskette.Proofs.Pool.Store
import Mathlib.Data.Finset.Card
import Mathlib.Data.List.Dedup
import Mathlib.Data.List.DropRight

/-!
# The order of recycling

While nothing stays checked out, a pool never grows. Its buffers stand in a queue: first those that
were never used, then the blocks in the order of their last access. An access takes the block out of
the queue, or the first buffer if the block has none, and puts it at the end.

* `rtake_dedup_concat`: the blocks accessed last, after one more access.
* `Queues`: the blocks of the queue. `Queues.access`: what an access does to it.
* `Dependable`: a disk of which every block can be read, and written unless it is protected.
* `Supplied`: a pool before such a disk, to which all that was changed can be written.
  `supplied_acquire`: every block of the disk can be checked out, and the pool stays supplied.
-/

namespace Diskette

open Diskette.Action

/-! ## The blocks accessed last -/

section

variable {blocks rest : List Nat} {block count : Nat}

/-- The blocks of a queue after an access to one of them or to a new one. -/
def touch (count block : Nat) (blocks : List Nat) : List Nat :=
  (blocks.erase block ++ [block]).rtake count

/-- The block accessed last is the last one of the blocks without repetitions. -/
theorem dedup_concat (blocks : List Nat) (block : Nat) :
    (blocks ++ [block]).dedup = blocks.dedup.erase block ++ [block] := by
  induction blocks with
  | nil => simp
  | cons first rest ih =>
    rw [List.cons_append]
    by_cases hmem : first ∈ rest
    · rw [List.dedup_cons_of_mem (List.mem_append_left _ hmem), List.dedup_cons_of_mem hmem, ih]
    · rw [List.dedup_cons_of_notMem hmem]
      by_cases hsame : first = block
      · subst hsame
        have hout : first ∉ rest.dedup := by rwa [List.mem_dedup]
        rw [List.dedup_cons_of_mem (by simp), ih, List.erase_cons_head, List.erase_of_not_mem hout]
      · rw [List.dedup_cons_of_notMem (by simp [hmem, hsame]), ih,
          List.erase_cons_tail (by simpa using hsame), List.cons_append]

theorem rtake_append_of_le (h : count ≤ rest.length) :
    (blocks ++ rest).rtake count = rest.rtake count := by
  rw [List.rtake, List.rtake, List.length_append, Nat.add_sub_assoc h, List.drop_length_add_append]

theorem rtake_of_length_le (h : blocks.length ≤ count) : blocks.rtake count = blocks := by
  rw [List.rtake, Nat.sub_eq_zero_of_le h, List.drop_zero]

theorem length_rtake (blocks : List Nat) (count : Nat) :
    (blocks.rtake count).length = min blocks.length count := by
  rw [List.rtake, List.length_drop]
  omega

/-- Only the blocks accessed last have to be remembered to know them after one more access. -/
theorem rtake_dedup_concat (blocks : List Nat) (block count : Nat) :
    (blocks ++ [block]).dedup.rtake count = touch count block (blocks.dedup.rtake count) := by
  rw [dedup_concat, touch]
  cases count with
  | zero => simp
  | succ count =>
    rw [List.rtake_concat_succ, List.rtake_concat_succ]
    congr 1
    have hnodup := List.nodup_dedup blocks
    generalize blocks.dedup = distinct at hnodup
    -- What is not among the last ones is there only if there is no more room.
    obtain ⟨early, late, rfl, hlate, hlength⟩ : ∃ early late, distinct = early ++ late ∧
        distinct.rtake (count + 1) = late ∧ (count + 1 ≤ late.length ∨ early = []) := by
      refine ⟨distinct.rdrop (count + 1), distinct.rtake (count + 1), ?_, rfl, ?_⟩
      · exact (List.take_append_drop _ _).symm
      · rw [length_rtake, List.rdrop]
        by_cases hle : count + 1 ≤ distinct.length
        · omega
        · rw [Nat.sub_eq_zero_of_le (by omega)]
          simp
    rw [hlate]
    rcases hlength with hlength | rfl
    · by_cases hmem : block ∈ late
      · have hout : block ∉ early := fun h => (List.nodup_append.mp hnodup).2.2 _ h _ hmem rfl
        have hle : count ≤ (late.erase block).length := by
          rw [List.length_erase_of_mem hmem]
          omega
        rw [List.erase_append_right _ hout, rtake_append_of_le hle]
      · rw [List.erase_of_not_mem hmem, List.erase_append]
        split
        · rw [rtake_append_of_le (by omega)]
        · rw [List.erase_of_not_mem hmem, rtake_append_of_le (by omega)]
    · rfl

end

namespace Pool

variable {pool pool' lent : Pool} {size buffers slot block : Nat} {recent : List Nat}

/-! ## The queue -/

/-- Nothing is checked out of a pool of `buffers` buffers. Those that were never used come first in
the queue, and then the blocks of `recent`. -/
structure Queues (buffers : Nat) (recent : List Nat) (pool : Pool) : Prop where
  size_eq : pool.entries.size = buffers
  length_le : recent.length ≤ buffers
  map_idle : pool.idle.map pool.blockAt =
    List.replicate (buffers - recent.length) none ++ recent.map some

theorem queues_ofSize (buffers : Nat) : Queues buffers [] (ofSize buffers) where
  size_eq := by simp [ofSize]
  length_le := Nat.zero_le _
  map_idle := by
    have hblock (slot : Nat) : (ofSize buffers).blockAt slot = none := by
      simp only [blockAt, ofSize, Array.getElem?_replicate]
      split <;> rfl
    have hidle : (ofSize buffers).idle.length = buffers := by simp [ofSize]
    simp [List.eq_replicate_iff, hblock, hidle]

theorem Queues.of_sameSlots (h : Queues buffers recent pool) (hs : SameSlots pool pool') :
    Queues buffers recent pool' where
  size_eq := hs.size_eq.trans h.size_eq
  length_le := h.length_le
  map_idle := by
    rw [hs.idle_eq, show pool'.blockAt = pool.blockAt from funext hs.blockAt_eq]
    exact h.map_idle

theorem Queues.length_idle (h : Queues buffers recent pool) : pool.idle.length = buffers := by
  have hlength := congrArg List.length h.map_idle
  have hle := h.length_le
  simp at hlength
  omega

/-- All buffers are idle. -/
theorem Queues.mem_idle (h : Queues buffers recent pool) (hv : pool.Valid size)
    (hs : slot < pool.entries.size) : slot ∈ pool.idle := by
  have hsub : pool.idle.toFinset ⊆ Finset.range pool.entries.size := by
    intro i hi
    rw [List.mem_toFinset] at hi
    exact Finset.mem_range.mpr (hv.lt_of_mem_idle hi)
  have hcard : (Finset.range pool.entries.size).card ≤ pool.idle.toFinset.card := by
    rw [Finset.card_range, List.toFinset_card_of_nodup hv.nodup_idle, h.length_idle, h.size_eq]
  have hall := Finset.eq_of_subset_of_card_le hsub hcard
  rw [← List.mem_toFinset, hall]
  exact Finset.mem_range.mpr hs

/-- A block has a buffer if it is in the queue. -/
theorem Queues.exists_slot_iff (h : Queues buffers recent pool) (hv : pool.Valid size) :
    (∃ slot, pool.blockAt slot = some block) ↔ block ∈ recent := by
  have hmem : some block ∈ pool.idle.map pool.blockAt ↔ block ∈ recent := by
    rw [h.map_idle]
    simp
  rw [← hmem, List.mem_map]
  constructor
  · rintro ⟨slot, hs⟩
    exact ⟨slot, h.mem_idle hv (lt_of_blockAt hs), hs⟩
  · rintro ⟨slot, -, hs⟩
    exact ⟨slot, hs⟩

theorem Queues.resident_iff (h : Queues buffers recent pool) (hv : pool.Valid size) :
    pool.resident block = true ↔ block ∈ recent := by
  rw [← h.exists_slot_iff hv, resident, Option.isSome_iff_exists]
  exact exists_congr fun _ => hv.find?_eq_some_iff

private theorem map_erase_of_unique {α : Type} {f : Nat → α} [BEq α] [LawfulBEq α] {l : List Nat}
    {a : Nat} (h : ∀ x ∈ l, f x = f a → x = a) : (l.erase a).map f = (l.map f).erase (f a) := by
  induction l with
  | nil => rfl
  | cons x l ih =>
    by_cases hx : x = a
    · subst hx
      rw [List.erase_cons_head, List.map_cons, List.erase_cons_head]
    · have hne : f x ≠ f a := fun hf => hx (h x List.mem_cons_self hf)
      rw [List.erase_cons_tail (by simpa using hx), List.map_cons, List.map_cons,
        List.erase_cons_tail (by simpa using hne), ih fun y hy => h y (List.mem_cons_of_mem _ hy)]

/-- A block that is in the pool already: its buffer moves to the end, and the queue keeps its
length. -/
private theorem Queues.map_erase_of_mem (h : Queues buffers recent pool) (hv : pool.Valid size)
    (hmem : block ∈ recent) (hb : pool.blockAt slot = some block) :
    (pool.idle.erase slot).map pool.blockAt ++ [some block] =
      List.replicate (buffers - (touch buffers block recent).length) none ++
        (touch buffers block recent).map some := by
  have hle := h.length_le
  have hcount : 0 < recent.length := List.length_pos_of_mem hmem
  have htouch : touch buffers block recent = recent.erase block ++ [block] := by
    refine rtake_of_length_le ?_
    rw [List.length_append, List.length_erase_of_mem hmem, List.length_singleton]
    omega
  have hlength : (touch buffers block recent).length = recent.length := by
    rw [htouch, List.length_append, List.length_erase_of_mem hmem, List.length_singleton]
    omega
  have herase : (pool.idle.erase slot).map pool.blockAt =
      (pool.idle.map pool.blockAt).erase (pool.blockAt slot) :=
    map_erase_of_unique fun i _ hi => hv.blockAt_inj (hi.trans hb) hb
  rw [herase, hb, h.map_idle, List.erase_append_right _ (by simp), hlength, htouch,
    ← List.map_erase (Option.some_injective _), List.map_append, List.append_assoc]
  rfl

/-- A block that is new to the pool: the first buffer of the queue is taken for it. With all buffers in
use the oldest block is forgotten, otherwise an empty buffer is used up. -/
private theorem Queues.map_erase_of_notMem (h : Queues buffers recent pool) (hpos : 0 < buffers)
    (hmem : block ∉ recent)
    (htail : (pool.idle.erase slot).map pool.blockAt = (pool.idle.map pool.blockAt).tail) :
    (pool.idle.erase slot).map pool.blockAt ++ [some block] =
      List.replicate (buffers - (touch buffers block recent).length) none ++
        (touch buffers block recent).map some := by
  have hle := h.length_le
  rw [htail, h.map_idle, touch, List.erase_of_not_mem hmem]
  by_cases hfull : recent.length = buffers
  · have htouch : (recent ++ [block]).rtake buffers = recent.tail ++ [block] := by
      rw [List.rtake, List.length_append, List.length_singleton, hfull, Nat.add_sub_cancel_left,
        List.drop_one, List.tail_append_of_ne_nil]
      rintro rfl
      exact absurd hfull (Nat.ne_of_lt hpos)
    have hsame : (recent.tail ++ [block]).length = buffers := by
      rw [List.length_append, List.length_tail, List.length_singleton]
      omega
    rw [htouch, hsame, hfull]
    simp
  · have htouch : (recent ++ [block]).rtake buffers = recent ++ [block] := by
      refine rtake_of_length_le ?_
      rw [List.length_append, List.length_singleton]
      omega
    obtain ⟨unused, hunused⟩ : ∃ unused, buffers - recent.length = unused + 1 :=
      ⟨buffers - recent.length - 1, by omega⟩
    have hsub : buffers - (recent ++ [block]).length = unused := by
      rw [List.length_append, List.length_singleton]
      omega
    rw [htouch, hsub, hunused, List.replicate_succ]
    simp

/-- The queue without the buffer that a block is checked out in. -/
private theorem Queues.map_erase (h : Queues buffers recent pool) (hv : pool.Valid size)
    (hpos : 0 < buffers) (hl : Lends pool block slot lent) :
    (pool.idle.erase slot).map pool.blockAt ++ [some block] =
      List.replicate (buffers - (touch buffers block recent).length) none ++
        (touch buffers block recent).map some := by
  by_cases hmem : block ∈ recent
  · obtain ⟨found, hb⟩ := (h.exists_slot_iff hv).mpr hmem
    obtain rfl : slot = found := by
      cases hl with
      | found hfind => exact hv.blockAt_inj (hv.find?_eq_some_iff.mp hfind) hb
      | recycled data hnew hidle hw => exact absurd hb (hv.find?_eq_none_iff.mp hnew _)
      | grown data hnew hidle => exact absurd hb (hv.find?_eq_none_iff.mp hnew _)
    exact h.map_erase_of_mem hv hmem hb
  · have hnone : pool.find? block = none := by
      refine hv.find?_eq_none_iff.mpr fun i hi => hmem ?_
      exact (h.exists_slot_iff hv).mp ⟨i, hi⟩
    refine h.map_erase_of_notMem hpos hmem ?_
    cases hl with
    | found hfind => simp [hnone] at hfind
    | recycled data hnew hidle hw => simp [hidle]
    | grown data hnew hidle =>
      have hlength := h.length_idle
      rw [hidle] at hlength
      exact absurd hlength (Nat.ne_of_lt hpos)

/-- An access puts its block at the end of the queue. -/
theorem Queues.access (h : Queues buffers recent pool) (hv : pool.Valid size) (hpos : 0 < buffers)
    (hl : Lends pool block slot lent) :
    Queues buffers (touch buffers block recent) (lent.unpin slot) := by
  have hidle : pool.idle ≠ [] := by
    intro hnil
    have hlength := h.length_idle
    rw [hnil] at hlength
    exact absurd hlength (Nat.ne_of_lt hpos)
  have hsize : lent.entries.size = pool.entries.size := by
    rw [hl.size_eq, if_neg fun hgrown => hidle hgrown.1]
  have hslot : slot ∈ pool.idle := by
    have hbound : lent.blockAt slot = some block := (hl.blockAt_eq hv slot).trans (if_pos rfl)
    exact h.mem_idle hv (hsize ▸ lt_of_blockAt hbound)
  constructor
  case size_eq => rw [size_unpin, hsize, h.size_eq]
  case length_le =>
    rw [touch, length_rtake]
    exact Nat.min_le_right _ _
  case map_idle =>
    rw [hl.idle_unpin hv hslot, ← h.map_erase hv hpos hl, List.map_append]
    congr 1
    · refine List.map_congr_left fun i hi => ?_
      rw [blockAt_unpin, hl.blockAt_eq hv, if_neg]
      rintro rfl
      exact (hv.nodup_idle.mem_erase_iff.mp hi).1 rfl
    · rw [List.map_singleton, blockAt_unpin, hl.blockAt_eq hv, if_pos rfl]

end Pool

/-! ## Nothing fails -/

/-- A disk of which every block can be read, and written unless it is protected. What the blocks hold
does not matter. -/
structure Dependable {δ : Type} [Disk δ] (readOnly : Bool) (Sound : δ → Prop) : Prop where
  readOnly_eq {disk : δ} (h : Sound disk) : Disk.readOnly disk = readOnly
  read_ok {disk : δ} {block : Nat} (h : Sound disk) (hb : block < Disk.blocks disk) :
    ∃ data disk', (Disk.read block).run disk = .ok data disk' ∧ Sound disk'
  write_ok {disk : δ} {block : Nat} {data : Block} (h : Sound disk) (hb : block < Disk.blocks disk)
    (hw : readOnly = false) : ∃ disk', (Disk.write block data).run disk = .ok () disk' ∧ Sound disk'
  flush_ends {disk : δ} (h : Sound disk) : Ends Disk.flush disk fun _ disk' => Sound disk'

/-- A disk that behaves as an array of blocks is dependable. -/
theorem ArrayDisk.dependable {δ : Type} [Disk δ] {size : Nat} {readOnly : Bool}
    {Holds : δ → (Nat → Block) → Prop} (hD : ArrayDisk size readOnly Holds) :
    Dependable readOnly fun disk => ∃ c, Holds disk c where
  readOnly_eq := fun ⟨_, h⟩ => hD.readOnly_eq h
  read_ok := by
    rintro disk block ⟨c, h⟩ hb
    rw [hD.blocks_eq h] at hb
    obtain ⟨disk', hrun⟩ := hD.read_ok h hb
    exact ⟨_, disk', hrun, c, ((hD.read_ends h block).of_ok hrun).1⟩
  write_ok := by
    rintro disk block data ⟨c, h⟩ hb hw
    rw [hD.blocks_eq h] at hb
    obtain ⟨disk', hrun⟩ := hD.write_ok h hb hw
    exact ⟨disk', hrun, _, (hD.write_ends h block data).of_ok hrun⟩
  flush_ends := fun ⟨c, h⟩ => (hD.flush_ends h).mono fun _ _ h' => ⟨c, h'⟩

namespace Pool

section

variable {δ : Type} [Disk δ] {size : Nat} {readOnly : Bool} {Sound : δ → Prop} {state : Pool × δ}
  {slot block : Nat} {handle : Handle}

omit [Disk δ] in
/-- A change that marks no entry. -/
private theorem writable_of_changed {pool pool' : Pool} {change : Entry → Entry}
    (hc : EntryChanged slot change pool pool')
    (hd : ∀ e, e.dirty = false → (change e).dirty = false) (h : pool.Writable readOnly) :
    pool'.Writable readOnly := by
  intro hro i entry he
  obtain ⟨old, hold, rfl⟩ := hc.cases he
  have hclean := h hro i old hold
  split
  · exact hd old hclean
  · exact hclean

omit [Disk δ] in
private theorem Lends.writable {pool lent : Pool} (hl : Lends pool block slot lent)
    (h : pool.Writable readOnly) : lent.Writable readOnly := by
  cases hl with
  | found hfind => exact writable_of_changed (fun i => getElem?_entries_pin i) (fun _ => id) h
  | recycled data hnew hidle hw =>
    have hwritten : Writable readOnly _ := fun hro i => hw.cleanAt (h hro i)
    exact writable_of_changed (fun i => getElem?_entries_bindTo data i) (fun _ _ => rfl)
      (writable_of_changed (fun i => getElem?_entries_unbind i) (fun _ => id) hwritten)
  | grown data hnew hidle =>
    refine writable_of_changed (fun i => getElem?_entries_bindTo data i) (fun _ _ => rfl) ?_
    intro hro i entry he
    rw [getElem?_entries_grow] at he
    split at he
    · cases he
      rfl
    · exact h hro i entry he

/-- The disk is sound, and what was changed in the pool can be written to it. -/
def Supplied (readOnly : Bool) (Sound : δ → Prop) (state : Pool × δ) : Prop :=
  Sound state.2 ∧ state.1.Writable readOnly

theorem supplied_writeBack (hD : Dependable readOnly Sound) (ht : Tidy size state)
    (h : Supplied readOnly Sound state) (slot : Nat) :
    Ends (writeBack slot) state fun r s' => r = .ok () ∧ Supplied readOnly Sound s' := by
  obtain ⟨pool, disk⟩ := state
  rcases writeBack_cases pool disk slot with ⟨-, hrun⟩ | ⟨block, data, hchange, hwrite⟩
  · exact (ends_of_run_eq_ok hrun).mpr ⟨rfl, h⟩
  · obtain ⟨entry, he, hblock, hdirty⟩ : ∃ entry, pool.entries[slot]? = some entry ∧
        entry.block = some block ∧ entry.dirty = true := by
      unfold change? at hchange
      split at hchange
      · next he => exact ⟨_, he, congrArg some (Prod.mk.inj (Option.some.inj hchange)).1, rfl⟩
      · cases hchange
    have hb : block < Disk.blocks disk := by
      rw [ht.blocks_eq]
      exact ht.valid.lt_size ((blockAt_of_entry he).trans hblock)
    have hro : readOnly = false := by
      rw [← Bool.not_eq_true]
      intro hro
      simp [h.2 hro slot entry he] at hdirty
    obtain ⟨after, hok, hsound⟩ :
        ∃ after, (Disk.write block data).run disk = .ok () after ∧ Sound after :=
      hD.write_ok h.1 hb hro
    rcases hwrite with ⟨disk', hw, hrun⟩ | ⟨e, disk', hw, hrun⟩
    · rw [hok] at hw
      cases hw
      refine (ends_of_run_eq_ok hrun).mpr ⟨rfl, hsound, fun hro' => ?_⟩
      simp [hro] at hro'
    · rw [hok] at hw
      cases hw

/-- Every block of the disk can be checked out. -/
theorem supplied_acquire (hD : Dependable readOnly Sound) (hO : Oblivious δ) (ht : Tidy size state)
    (h : Supplied readOnly Sound state) (hb : block < size) :
    Ends (acquire block) state fun r s' => (∃ handle, r = .ok handle) ∧
      Supplied readOnly Sound s' := by
  have hread {data : Block} {disk : δ} (hrun : (Disk.read block).run state.2 = .ok data disk) :
      Tidy size (state.1, disk) ∧ Supplied readOnly Sound (state.1, disk) := by
    obtain ⟨_, _, hok, hsound⟩ := hD.read_ok h.1 (ht.blocks_eq.symm ▸ hb)
    rw [hok] at hrun
    cases hrun
    exact ⟨⟨((hO.read block state.2).of_ok hok).trans ht.blocks_eq, ht.valid⟩, hsound, h.2⟩
  suffices hsound : Ends (acquire block) state fun r s' => (∃ handle, r = .ok handle) ∧
      Sound s'.2 by
    refine (hsound.and (acquire_lends block)).mono ?_
    rintro _ s' ⟨⟨⟨handle, rfl⟩, hs⟩, -, hl⟩
    exact ⟨⟨handle, rfl⟩, hs, hl.writable h.2⟩
  have hacquired := acquired block state
  unfold Ends
  generalize (acquire block).run state = result at hacquired ⊢
  cases hacquired with
  | found hfind => exact ⟨⟨_, rfl⟩, h.1⟩
  | outOfRange hle => exact absurd hb (Nat.not_lt.mpr (ht.blocks_eq ▸ hle))
  | unread hrun =>
    obtain ⟨_, _, hok, -⟩ := hD.read_ok h.1 (ht.blocks_eq.symm ▸ hb)
    rw [hok] at hrun
    cases hrun
  | unwritten hidle hrun hwrite =>
    obtain ⟨htidy, hsupplied⟩ := hread hrun
    cases ((supplied_writeBack hD htidy hsupplied _).of_error hwrite).1
  | recycled hnew hidle hrun hwrite =>
    obtain ⟨htidy, hsupplied⟩ := hread hrun
    exact ⟨⟨_, rfl⟩, ((supplied_writeBack hD htidy hsupplied _).of_ok hwrite).2.1⟩
  | grown hnew hidle hrun => exact ⟨⟨_, rfl⟩, (hread hrun).2.1⟩

theorem supplied_update (h : Supplied readOnly Sound state) (handle : Handle)
    (change : Block → Block) :
    Ends (update handle change) state fun _ s' => Supplied readOnly Sound s' := by
  obtain ⟨pool, disk⟩ := state
  unfold update
  simp only [ends_bind, ends_ask, modifyPool, ends_modify]
  split
  · exact ⟨h.1, writable_of_changed (getElem?_entries_changeEntry _) (fun _ => id) h.2⟩
  · exact h

theorem supplied_flag (hD : Dependable readOnly Sound) (h : Supplied readOnly Sound state)
    (slot : Nat) : Ends (flag slot) state fun _ s' => Supplied readOnly Sound s' := by
  obtain ⟨pool, disk⟩ := state
  unfold flag
  simp only [ends_bind, ends_ask, modifyPool, ends_modify]
  rw [hD.readOnly_eq h.1]
  cases readOnly with
  | true => exact h
  | false => exact ⟨h.1, fun hro => absurd hro Bool.false_ne_true⟩

theorem supplied_release (hD : Dependable readOnly Sound) (h : Supplied readOnly Sound state)
    (handle : Handle) (dirty : Bool) :
    Ends (release handle dirty false) state fun _ s' => Supplied readOnly Sound s' := by
  have hunpin {s : Pool × δ} (hs : Supplied readOnly Sound s) :
      Supplied readOnly Sound (s.1.unpin handle.slot, s.2) :=
    ⟨hs.1, writable_of_changed (fun i => getElem?_entries_unpin i) (fun _ => id) hs.2⟩
  obtain ⟨pool, disk⟩ := state
  unfold release settle
  simp only [ends_bind, ends_ask, ends_attempt, modifyPool, ends_modify, ends_ofExcept]
  cases pool.checkedOut handle with
  | error e => exact h
  | ok entry =>
    cases dirty with
    | false => exact hunpin h
    | true =>
      refine ends_bind.mpr ((supplied_flag hD h handle.slot).mono ?_)
      rintro (e | ⟨⟩) s' hs
      · exact hunpin hs
      · exact hunpin hs

theorem supplied_readBlock (hD : Dependable readOnly Sound) (hO : Oblivious δ) (ht : Tidy size state)
    (h : Supplied readOnly Sound state) (hb : block < size) :
    Ends (BlockCache.readBlock block) state fun _ s' => Supplied readOnly Sound s' := by
  unfold BlockCache.readBlock
  refine (supplied_acquire hD hO ht h hb).bind ?_ fun _ _ hs => hs.2
  rintro handle s' ⟨-, hs⟩
  simp only [ends_bind, ends_attempt, ends_ask, ends_ofExcept]
  exact supplied_release hD hs handle false

theorem supplied_writeBlock (hD : Dependable readOnly Sound) (hO : Oblivious δ)
    (ht : Tidy size state) (h : Supplied readOnly Sound state) (hb : block < size) (bytes : Block) :
    Ends (BlockCache.writeBlock block bytes) state fun _ s' => Supplied readOnly Sound s' := by
  unfold BlockCache.writeBlock
  refine (supplied_acquire hD hO ht h hb).bind ?_ fun _ _ hs => hs.2
  rintro handle s' ⟨-, hs⟩
  simp only [ends_bind, ends_attempt, ends_ofExcept]
  exact (supplied_update hs handle _).mono fun r s'' hs' => supplied_release hD hs' handle r.isOk

theorem supplied_markDirty (hD : Dependable readOnly Sound) (h : Supplied readOnly Sound state)
    (block : Nat) : Ends (markDirty block) state fun _ s' => Supplied readOnly Sound s' :=
  ends_markDirty (supplied_flag hD h) h

theorem supplied_writeBackFrom (hD : Dependable readOnly Sound) (hO : Oblivious δ) (count : Nat) :
    ∀ {state : Pool × δ} (slot : Nat), Tidy size state → Supplied readOnly Sound state →
      Ends (writeBackFrom count slot) state fun _ s' => Supplied readOnly Sound s' := by
  induction count with
  | zero => exact fun _ _ h => h
  | succ count ih =>
    intro state slot ht h
    apply ((supplied_writeBack hD ht h slot).and (tidy_writeBack hO ht slot)).bind
    · rintro ⟨⟩ s' ⟨⟨-, hs⟩, hs', -⟩
      exact ih (slot + 1) hs' hs
    · rintro e s' ⟨⟨he, -⟩, -⟩
      cases he

theorem supplied_sync (hD : Dependable readOnly Sound) (hO : Oblivious δ) (ht : Tidy size state)
    (h : Supplied readOnly Sound state) :
    Ends sync state fun _ s' => Supplied readOnly Sound s' := by
  have hrun : writeBackAll.run state = (writeBackFrom state.1.entries.size 0).run state := rfl
  have hall : Ends writeBackAll state fun _ s' => Supplied readOnly Sound s' :=
    (ends_congr hrun).mpr (supplied_writeBackFrom hD hO _ 0 ht h)
  refine hall.bind ?_ fun _ _ hs => hs
  rintro ⟨⟩ ⟨pool', disk'⟩ hs
  rw [ends_onSecond]
  exact (hD.flush_ends hs.1).mono fun _ _ hs' => ⟨hs', hs.2⟩

end

end Pool

end Diskette
