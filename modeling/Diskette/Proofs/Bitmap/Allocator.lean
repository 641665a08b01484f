import Diskette.Proofs.Bitmap.Packed
import Diskette.Proofs.Ends

/-!
# The allocator

What a user of a bitmap may rely on, whatever is asked and in whatever order. A `Stock` is kept
beside the bitmap by someone who sees the answers only: the blocks that were free at the start, less
those that were handed out, with those that were given back, and where the last search ended.

* `isFree_of_next?`, `next?_eq_none_iff`, `ahead_le_of_next?`: the search goes once around and finds
  the first free block.
* `Tracks.serve`, `Demand.servePacked_eq`: what one demand does to the stock, to the bitmap and to
  its packed form.
* `Alike.sameAnswers_iff`: when two bitmaps can be told apart by what they answer.
* `Run.contract`: after every run of demands the bitmap and its packed form agree with the stock.
-/

namespace Diskette.Bitmap

open Diskette.Action

variable {bitmap : Bitmap} {packed : Packed} {blocks start block other : Nat}

/-! ## The search goes around -/

/-- How far ahead of `start` a block lies when block 0 follows the last one. -/
def ahead (blocks start block : Nat) : Nat := (block + (blocks - start)) % blocks

theorem ahead_of_le (h : start ≤ block) (hb : block < blocks) :
    ahead blocks start block = block - start := by
  have hsplit : block + (blocks - start) = block - start + blocks := by omega
  rw [ahead, hsplit, Nat.add_mod_right, Nat.mod_eq_of_lt (by omega)]

theorem ahead_of_lt (h : block < start) (hb : block < blocks) :
    ahead blocks start block = block + (blocks - start) := Nat.mod_eq_of_lt (by omega)

theorem next?_eq_none_iff : bitmap.next? = none ↔ ∀ block, bitmap.isFree block = false := by
  rw [next?, Option.orElse_eq_orElse, Option.orElse_eq_or, Option.or_eq_none_iff,
    firstFree?_eq_none_iff, firstFree?_eq_none_iff]
  constructor
  · rintro ⟨htail, hfront⟩ block
    by_contra hfree
    rw [Bool.not_eq_false] at hfree
    have hb : block < bitmap.bits.size := lt_of_isFree hfree
    by_cases h : bitmap.cursor * 8 ≤ block
    · exact absurd (htail block h (by omega)) (by rw [← isFree, hfree]; exact Bool.true_eq_false.mp)
    · exact absurd (hfront block (by omega) (by omega))
        (by rw [← isFree, hfree]; exact Bool.true_eq_false.mp)
  · exact fun h => ⟨fun block _ _ => h block, fun block _ _ => h block⟩

/-- What is allocated next is the first free block from the cursor on and around. -/
theorem ahead_le_of_next? (h : bitmap.next? = some block) (ho : bitmap.isFree other = true) :
    ahead bitmap.blocks (bitmap.cursor * 8) block ≤
      ahead bitmap.blocks (bitmap.cursor * 8) other := by
  have hb := lt_of_isFree (isFree_of_next? h)
  have hother := lt_of_isFree ho
  have hused {i : Nat} (hi : bitmap.isFree i = false) : i ≠ other := fun he => by
    rw [he, ho] at hi
    cases hi
  rw [next?, Option.orElse_eq_orElse, Option.orElse_eq_or, Option.or_eq_some_iff,
    firstFree?_eq_some_iff, firstFree?_eq_none_iff, firstFree?_eq_some_iff] at h
  rcases h with ⟨hle, -, -, hbefore⟩ | ⟨htail, -, hlt, -, hbefore⟩
  · rw [ahead_of_le hle hb]
    by_cases hstart : bitmap.cursor * 8 ≤ other
    · rw [ahead_of_le hstart hother]
      have : ¬ other < block := fun hlt => hused (hbefore other hstart hlt) rfl
      omega
    · rw [ahead_of_lt (Nat.not_le.mp hstart) hother]
      omega
  · have hstart : other < bitmap.cursor * 8 := by
      by_contra hge
      have hother : other < bitmap.bits.size := hother
      exact hused (htail other (Nat.not_lt.mp hge) (by omega)) rfl
    rw [ahead_of_lt (by omega) hb, ahead_of_lt hstart hother]
    have : ¬ other < block := fun hlt => hused (hbefore other (Nat.zero_le _) hlt) rfl
    omega

/-! ## Demands -/

/-- What can be asked of an allocator. -/
inductive Demand where
  | any
  | one (block : Nat)
  | release (block : Nat)

/-- Serves a demand with a bitmap: the block that is handed out. -/
def Demand.serve : Demand → Bitmap → Option Nat × Bitmap
  | any, bitmap => bitmap.alloc
  | one block, bitmap =>
    (if (bitmap.allocAt block).1 then some block else none, (bitmap.allocAt block).2)
  | release block, bitmap => (none, bitmap.release block)

/-- Serves a demand with a packed bitmap. -/
def Demand.servePacked : Demand → Packed → Option Nat × Packed
  | any, packed => packed.alloc
  | one block, packed =>
    (if (packed.allocAt block).1 then some block else none, (packed.allocAt block).2)
  | release block, packed => (none, packed.release block)

/-- What is known of a bitmap from its answers. -/
structure Stock where
  /-- The blocks that are free. -/
  free : Finset Nat
  /-- The block from which on the next free one is looked for. -/
  start : Nat

namespace Stock

/-- Every block is free. -/
def full (blocks : Nat) : Stock := ⟨Finset.range blocks, 0⟩

/-- The blocks whose bits are set in these bytes are free. -/
def stored (blocks : Nat) (bytes : ByteArray) : Stock where
  free := (Finset.range blocks).filter fun block => bitAt bytes block = true
  start := (((List.range blocks).find? (bitAt bytes)).getD 0) / 8 * 8

/-- The stock after a demand for which `granted` was handed out. A search ends in the group of eight
blocks in which it finds one. -/
def after (blocks : Nat) (stock : Stock) : Demand → (granted : Option Nat) → Stock
  | .any, some block => ⟨stock.free.erase block, block / 8 * 8⟩
  | .one _, some block => ⟨stock.free.erase block, stock.start⟩
  | .release block, _ =>
    if block < blocks then ⟨insert block stock.free, stock.start⟩ else stock
  | _, none => stock

end Stock

/-- A bitmap of `blocks` blocks agrees with a stock. -/
structure Tracks (blocks : Nat) (bitmap : Bitmap) (stock : Stock) : Prop where
  blocks_eq : bitmap.blocks = blocks
  isFree_iff (block : Nat) : bitmap.isFree block = true ↔ block ∈ stock.free
  start_eq : stock.start = bitmap.cursor * 8

variable {stock : Stock}

theorem Tracks.full (blocks : Nat) : Tracks blocks (freshly blocks) (.full blocks) where
  blocks_eq := Array.size_replicate
  isFree_iff block := by simp [isFree_freshly, Stock.full]
  start_eq := rfl

/-- A block that was handed out is not free any more. -/
theorem Tracks.took {after : Bitmap} (h : Tracks blocks bitmap stock)
    (htook : bitmap.Took [block] after) (hstart : start = after.cursor * 8) :
    Tracks blocks after ⟨stock.free.erase block, start⟩ where
  blocks_eq := htook.blocks_eq.trans h.blocks_eq
  isFree_iff other := by
    rw [htook.isFree_eq, Finset.mem_erase, ← h.isFree_iff]
    simp [and_comm]
  start_eq := hstart

/-- A demand does to the bitmap what it does to the stock. -/
theorem Tracks.serve (h : Tracks blocks bitmap stock) (demand : Demand) :
    Tracks blocks (demand.serve bitmap).2
      (stock.after blocks demand (demand.serve bitmap).1) := by
  cases demand with
  | any =>
    rw [Demand.serve]
    cases hgranted : bitmap.alloc with
    | mk granted after =>
      cases granted with
      | none => rwa [alloc_eq_none hgranted]
      | some block =>
        exact h.took (took_alloc hgranted) (congrArg (· * 8) (cursor_alloc hgranted).symm)
  | one block =>
    have hgranted : (bitmap.allocAt block).1 = bitmap.isFree block := by
      rw [allocAt]
      split <;> simp_all
    rw [Demand.serve, hgranted]
    cases hfree : bitmap.isFree block with
    | false =>
      have hafter : (bitmap.allocAt block).2 = bitmap := by
        rw [allocAt, if_neg (Bool.eq_false_iff.mp hfree)]
      rwa [hafter]
    | true =>
      -- Only a search moves the cursor; a block that is asked for by number does not.
      have hcursor : (bitmap.allocAt block).2.cursor = bitmap.cursor := by
        rw [allocAt, if_pos hfree]
      exact h.took (took_allocAt hfree) (h.start_eq.trans (congrArg (· * 8) hcursor.symm))
  | release block =>
    have hcursor : (bitmap.release block).cursor = bitmap.cursor := rfl
    rw [Demand.serve, Stock.after]
    split
    · next hb =>
      refine ⟨(blocks_release ..).trans h.blocks_eq, fun other => ?_, h.start_eq⟩
      rw [isFree_release, Finset.mem_insert, ← h.isFree_iff, h.blocks_eq]
      simp [hb, or_comm]
    · next hb => rwa [release_eq_self (.inl (h.blocks_eq.trans_le (Nat.not_lt.mp hb)))]

/-- A demand does to the packed form what it does to the bitmap. -/
theorem Demand.servePacked_eq (demand : Demand) (h : packed.WellFormed) :
    (demand.servePacked packed).1 = (demand.serve packed.unpack).1 ∧
      (demand.servePacked packed).2.unpack = (demand.serve packed.unpack).2 ∧
      (demand.servePacked packed).2.WellFormed := by
  cases demand with
  | any => exact h.alloc_eq
  | one block =>
    obtain ⟨hfree, hafter⟩ := h.allocAt_eq block
    exact ⟨congrArg (if · then some block else none) hfree, hafter⟩
  | release block => exact ⟨rfl, h.release_eq block⟩

/-! ## Loading -/

section

variable {κ : Type} [BlockStore κ] {store after : κ} {bytes : ByteArray}

theorem size_of_readStored {count i : Nat} {acc : ByteArray}
    (h : (readStored start count i acc).run store = .ok bytes after) :
    bytes.size = acc.size + count * 512 := by
  induction count generalizing i acc store with
  | zero =>
    cases h
    rfl
  | succ count ih =>
    rw [readStored, EStateM.run_bind] at h
    cases hread : (BlockStore.readBlock (storedAt start i) : Action κ Block).run store with
    | error e middle =>
      rw [hread] at h
      cases h
    | ok block middle =>
      rw [hread] at h
      rw [ih h, ByteArray.size_append, block.size_data]
      omega

theorem Tracks.stored (blocks : Nat) (bytes : ByteArray) :
    Tracks blocks (ofBytes blocks bytes) (.stored blocks bytes) where
  blocks_eq := by simp [Bitmap.blocks, ofBytes]
  isFree_iff block := by
    by_cases h : block < blocks <;> simp [isFree, ofBytes, Stock.stored, h]
  start_eq := by
    have hbit {i : Nat} (hi : i < blocks) :
        (((Array.range blocks).map (bitAt bytes))[i]?).getD false = bitAt bytes i := by
      simp [hi]
    suffices firstFree? ((Array.range blocks).map (bitAt bytes)) blocks 0 =
        (List.range blocks).find? (bitAt bytes) by
      rw [Stock.stored, ofBytes, this]
    cases hfind : (List.range blocks).find? (bitAt bytes) with
    | none =>
      refine firstFree?_eq_none_iff.mpr fun i _ hi => ?_
      rw [hbit (by omega)]
      simpa using List.find?_eq_none.mp hfind i (List.mem_range.mpr (by omega))
    | some found =>
      obtain ⟨hset, hlt, hbefore⟩ := List.find?_range_eq_some.mp hfind
      have hlt := List.mem_range.mp hlt
      refine firstFree?_eq_some_iff.mpr ⟨Nat.zero_le _, by omega, (hbit hlt).trans hset, ?_⟩
      intro i _ hi
      rw [hbit (by omega)]
      simpa using hbefore i hi

end

/-! ## Runs -/

/-- The bitmaps of `blocks` blocks that demands lead to, each in both forms and with its stock, from
a new bitmap or from one that was loaded. -/
inductive Run (blocks : Nat) : Packed → Bitmap → Stock → Prop
  | freshly : Run blocks (.freshly blocks) (.freshly blocks) (.full blocks)
  | loaded {κ : Type} [BlockStore κ] {store after after' after'' : κ} {start : Nat}
    {bytes : ByteArray} {packed : Packed} {bitmap : Bitmap}
    (hread : (readStored start (storedBlocks blocks) 0 .empty).run store = .ok bytes after)
    (hpacked : (Packed.load start blocks).run store = .ok packed after')
    (hbitmap : (Bitmap.load start blocks).run store = .ok bitmap after'') :
    Run blocks packed bitmap (.stored blocks bytes)
  | step {packed : Packed} {bitmap : Bitmap} {stock : Stock} (h : Run blocks packed bitmap stock)
    (demand : Demand) :
    Run blocks (demand.servePacked packed).2 (demand.serve bitmap).2
      (stock.after blocks demand (demand.servePacked packed).1)

/-- Whatever a bitmap is loaded from, its packed form is loaded too. -/
theorem Run.exists_of_load {κ : Type} [BlockStore κ] {store after : κ}
    (h : (Bitmap.load start blocks).run store = .ok bitmap after) :
    ∃ packed bytes, (Packed.load start blocks).run store = .ok packed after ∧
      Run blocks packed bitmap (.stored blocks bytes) := by
  cases hread : (readStored start (storedBlocks blocks) 0 .empty : Action κ ByteArray).run store with
  | error e middle =>
    rw [Bitmap.load, EStateM.run_bind, hread] at h
    cases h
  | ok bytes middle =>
    have hpacked : (Packed.load start blocks).run store = .ok (.ofBytes blocks bytes) middle :=
      run_bind_of_ok hread _
    obtain rfl : middle = after := by
      rw [Bitmap.load, run_bind_of_ok hread] at h
      cases h
      rfl
    exact ⟨_, bytes, hpacked, .loaded hread hpacked h⟩

/-- A bitmap after the demands of a list. -/
def serveAll (demands : List Demand) (bitmap : Bitmap) : Bitmap :=
  demands.foldl (fun bitmap demand => (demand.serve bitmap).2) bitmap

theorem serveAll_append (demands demands' : List Demand) (bitmap : Bitmap) :
    serveAll (demands ++ demands') bitmap = serveAll demands' (serveAll demands bitmap) :=
  List.foldl_append

theorem serveAll_release (blocks : List Nat) (bitmap : Bitmap) :
    serveAll (blocks.map .release) bitmap = releaseAll blocks bitmap := List.foldl_map

theorem Run.exists_serveAll (h : Run blocks packed bitmap stock) (demands : List Demand) :
    ∃ packed' stock', Run blocks packed' (serveAll demands bitmap) stock' := by
  induction demands generalizing packed bitmap stock with
  | nil => exact ⟨packed, stock, h⟩
  | cons demand rest ih => exact ih (h.step demand)

theorem Run.tracks (h : Run blocks packed bitmap stock) :
    packed.unpack = bitmap ∧ packed.WellFormed ∧ Tracks blocks bitmap stock := by
  induction h with
  | freshly => exact ⟨Packed.unpack_freshly _, Packed.wellFormed_freshly _, .full _⟩
  | @loaded _ _ _ _ _ _ _ bytes _ _ hread hpacked hbitmap =>
    have hsize : bytes.size = storedBlocks blocks * 512 :=
      (size_of_readStored hread).trans (Nat.zero_add _)
    rw [Packed.load, run_bind_of_ok hread] at hpacked
    rw [Bitmap.load, run_bind_of_ok hread] at hbitmap
    cases hpacked
    cases hbitmap
    exact ⟨Packed.unpack_ofBytes (hsize ▸ Packed.blocks_le_storedBlocks blocks),
      Packed.wellFormed_ofBytes hsize, .stored ..⟩
  | step _ demand ih =>
    obtain ⟨rfl, hwf, htracks⟩ := ih
    obtain ⟨hgranted, hunpack, hwf'⟩ := demand.servePacked_eq hwf
    rw [hgranted]
    exact ⟨hunpack, hwf', htracks.serve demand⟩

/-- The free blocks are counted right. -/
theorem Run.free_eq (h : Run blocks packed bitmap stock) : packed.free = bitmap.freeBlocks := by
  obtain ⟨rfl, hwf, -⟩ := h.tracks
  exact hwf.free_eq

theorem Run.isFree_eq (h : Run blocks packed bitmap stock) (block : Nat) :
    packed.isFree block = bitmap.isFree block := by
  obtain ⟨rfl, -, -⟩ := h.tracks
  exact (Packed.isFree_unpack packed block).symm

/-- A search starts within the volume. -/
theorem Run.cursor_lt (h : Run blocks packed bitmap stock) (hpos : 0 < blocks) :
    bitmap.cursor * 8 < blocks := by
  -- A load sets the cursor to the first free byte, and after that only a granted search moves it.
  induction h with
  | freshly => exact (Nat.zero_mul 8).trans_lt hpos
  | @loaded _ _ _ _ _ _ _ bytes _ _ hread _ hbitmap =>
    rw [Bitmap.load, run_bind_of_ok hread] at hbitmap
    cases hbitmap
    have hfirst {i : Nat} (hi : i < blocks) : i / 8 * 8 < blocks :=
      (Nat.div_mul_le_self i 8).trans_lt hi
    refine hfirst ?_
    cases hfind : firstFree? ((Array.range blocks).map (bitAt bytes)) blocks 0 with
    | none => exact hpos
    | some found => exact (Nat.zero_add blocks) ▸ (firstFree?_eq_some_iff.mp hfind).2.1
  | @step packed bitmap _ h demand ih =>
    cases demand with
    | any =>
      rw [Demand.serve]
      cases hgranted : bitmap.alloc with
      | mk granted after =>
        cases granted with
        | none => rwa [alloc_eq_none hgranted]
        | some block =>
          have hfree := (took_alloc hgranted).free (List.mem_singleton_self block)
          have hlt : block < blocks := h.tracks.2.2.blocks_eq ▸ lt_of_isFree hfree
          rw [cursor_alloc hgranted]
          exact (Nat.div_mul_le_self block 8).trans_lt hlt
    | one block =>
      rw [Demand.serve, allocAt]
      split <;> exact ih
    | release block => exact ih

/-! ## Telling bitmaps apart -/

/-- Whatever is asked of the second bitmap, and whatever was asked before, it answers as the first
one does. -/
def SameAnswers (before after : Bitmap) : Prop :=
  ∀ demands,
    (∀ demand : Demand, (demand.serve (serveAll demands after)).1 =
      (demand.serve (serveAll demands before)).1) ∧
    ∀ block, (serveAll demands after).isFree block = (serveAll demands before).isFree block

/-- The block in which a search starts is what it finds, if that is free. -/
theorem next?_of_isFree (h : bitmap.isFree (bitmap.cursor * 8) = true) :
    bitmap.next? = some (bitmap.cursor * 8) := by
  have hlt : bitmap.cursor * 8 < bitmap.bits.size := lt_of_isFree h
  rw [next?, Option.orElse_eq_orElse, Option.orElse_eq_or, Option.or_eq_some_iff]
  exact .inl (firstFree?_eq_some_iff.mpr ⟨le_rfl, by omega, h, fun i hle hi => by omega⟩)

/-- Bitmaps with the same free blocks can be told apart if they look for the next one from different
blocks on: both blocks are released, and then each of the bitmaps hands out its own. -/
theorem Alike.sameAnswers_iff {before after : Bitmap} (h : Alike before after)
    (hbefore : before.cursor * 8 < before.blocks) (hafter : after.cursor * 8 < before.blocks) :
    SameAnswers before after ↔ after.cursor = before.cursor := by
  constructor
  · intro hsame
    let both := [before.cursor * 8, after.cursor * 8]
    have hfound {bitmap : Bitmap} (hblocks : bitmap.blocks = before.blocks)
        (hlt : bitmap.cursor * 8 < before.blocks) (hmem : bitmap.cursor * 8 ∈ both) :
        (Demand.any.serve (serveAll (both.map .release) bitmap)).1 = some (bitmap.cursor * 8) := by
      rw [serveAll_release, Demand.serve, fst_alloc, next?_of_isFree, cursor_releaseAll]
      rw [cursor_releaseAll, isFree_releaseAll, hblocks]
      simp [hmem, hlt]
    have hany := (hsame (both.map .release)).1 .any
    rw [hfound h.blocks_eq hafter (by simp [both]), hfound rfl hbefore (by simp [both])] at hany
    have hblock : after.cursor * 8 = before.cursor * 8 := Option.some.inj hany
    omega
  · intro hcursor
    obtain rfl : after = before := h.eq_of_cursor hcursor
    exact fun _ => ⟨fun _ => rfl, fun _ => rfl⟩

/-! ## The contract -/

/-- What a user of a bitmap of `blocks` blocks may rely on. -/
structure Contract (blocks : Nat) (packed : Packed) (bitmap : Bitmap) (stock : Stock) : Prop where
  /-- The stock says which blocks are free, and it has no block beyond the last one. -/
  isFree_iff (block : Nat) :
    (packed.isFree block = true ↔ block ∈ stock.free) ∧
      (bitmap.isFree block = true ↔ block ∈ stock.free)
  lt_of_mem {block : Nat} (h : block ∈ stock.free) : block < blocks
  /-- The number of free blocks is that of the blocks that are free. -/
  free_eq : packed.free = ((Finset.range blocks).filter fun block => packed.isFree block).card
  freeBlocks_eq :
    bitmap.freeBlocks = ((Finset.range blocks).filter fun block => bitmap.isFree block).card
  /-- No bit is set beyond the last block. -/
  bitAt_of_le {block : Nat} (h : blocks ≤ block) : bitAt packed.bits block = false
  byte_storedBlock (i : Nat) {j : Nat} (h : j < 512) :
    (bitmap.storedBlock i).byte j = byteAt packed.bits (i * 512 + j)
  /-- Nothing is handed out only if nothing is free. -/
  alloc_eq_none_iff : packed.alloc.1 = none ↔ stock.free = ∅
  /-- What is handed out is free, and it is the first free block around from the start. -/
  alloc_eq_some {block : Nat} (h : packed.alloc.1 = some block) :
    block ∈ stock.free ∧
      (∀ other ∈ stock.free, ahead blocks stock.start block ≤ ahead blocks stock.start other) ∧
      ∀ other, packed.alloc.2.isFree other = (packed.isFree other && decide (other ≠ block))
  /-- The bitmap hands out what its packed form hands out. -/
  serve_eq (demand : Demand) : (demand.serve bitmap).1 = (demand.servePacked packed).1

/-- The two forms of a bitmap keep to the contract after every run of demands. -/
theorem Run.contract (h : Run blocks packed bitmap stock) : Contract blocks packed bitmap stock := by
  obtain ⟨rfl, hwf, htracks⟩ := h.tracks
  have hblocks : packed.blocks = blocks := (Packed.blocks_unpack packed).symm.trans htracks.blocks_eq
  -- All that is said of the packed form is said of the plain one first.
  obtain ⟨halloc, hafter, -⟩ := hwf.alloc_eq
  have hcard := freeBlocks_eq_card packed.unpack
  rw [htracks.blocks_eq] at hcard
  constructor
  case isFree_iff => exact fun block =>
    ⟨(Packed.isFree_unpack packed block) ▸ htracks.isFree_iff block, htracks.isFree_iff block⟩
  case lt_of_mem => exact fun hb => htracks.blocks_eq ▸ lt_of_isFree ((htracks.isFree_iff _).mpr hb)
  case free_eq =>
    rw [hwf.free_eq, hcard]
    simp only [Packed.isFree_unpack]
  case freeBlocks_eq => exact hcard
  case bitAt_of_le => exact fun hb => hwf.bitAt_of_le (hblocks.trans_le hb)
  case byte_storedBlock => exact fun i _ hj => hwf.byte_storedBlock i hj
  case alloc_eq_none_iff =>
    rw [halloc, fst_alloc, next?_eq_none_iff, Finset.eq_empty_iff_forall_notMem]
    simp only [← htracks.isFree_iff, Bool.not_eq_true]
  case alloc_eq_some =>
    intro block hblock
    rw [halloc] at hblock
    have hgranted : packed.unpack.alloc = (some block, packed.unpack.alloc.2) :=
      Prod.ext hblock rfl
    have hnext : packed.unpack.next? = some block := by
      unfold alloc at hblock
      cases hn : packed.unpack.next? with
      | none =>
        rw [hn] at hblock
        cases hblock
      | some found =>
        rw [hn] at hblock
        exact hblock
    refine ⟨(htracks.isFree_iff _).mp (isFree_of_next? hnext), fun other hother => ?_, fun other => ?_⟩
    · rw [htracks.start_eq, ← htracks.blocks_eq]
      exact ahead_le_of_next? hnext ((htracks.isFree_iff _).mpr hother)
    · rw [← Packed.isFree_unpack, hafter, (took_alloc hgranted).isFree_eq, Packed.isFree_unpack]
      simp
  case serve_eq => exact fun demand => (demand.servePacked_eq hwf).1.symm

/-- All of nine blocks are handed out. After block 3 is given back the search goes around. -/
theorem Run.contract_nine :
    let bitmap := serveAll (.replicate 9 .any ++ [.release 3]) (Bitmap.freshly 9)
    bitmap.cursor = 1 ∧ bitmap.alloc.1 = some 3 ∧
      ∃ packed stock, Run 9 packed bitmap stock ∧ Contract 9 packed bitmap stock := by
  intro bitmap
  obtain ⟨packed, stock, hrun⟩ := Run.freshly.exists_serveAll (.replicate 9 .any ++ [.release 3])
  exact ⟨by decide, by decide, packed, stock, hrun, hrun.contract⟩

end Diskette.Bitmap
