import Diskette.Proofs.Bitmap.Allocator
import Diskette.Proofs.Bitmap.Stored
import Diskette.Proofs.ExactStore

/-!
# Bitmaps that are stored and loaded

A bitmap that was stored is loaded as it was, and whatever is in its blocks is loaded as a bitmap:
each bit says of its block whether it is free, and the bits that belong to no block of the volume say
nothing. When such a bitmap is stored again, just those bits are cleared.

* `storedBit`: the bit of a block among the blocks of a volume.
* `Form`: a form in which bitmaps are kept. `Form.plain` and `Form.packed` are the two.
* `Form.Persists`: what is stored is loaded again, and the other way round.
* `Packed.WellFormed.write_eq`: the packed form stores what the plain one does.
* `Run.persists`: bitmaps persist in both forms, after every run of demands.
-/

namespace Diskette.Bitmap

open Diskette.Action

variable {κ β : Type} [BlockStore κ] {n start blocks count block : Nat}
  {Holds : κ → (Nat → Block) → Prop} {s : κ} {c c' : Nat → Block} {bitmap : Bitmap}

/-! ## The bits of a volume -/

/-- The bit of a block in the bitmap that is stored from block `start` on. The first one of eight
blocks has the top bit of their byte. -/
def storedBit (start : Nat) (c : Nat → Block) (block : Nat) : Bool :=
  ((c (start + block / bitsPerBlock)).byte (block / 8 % 512)).toNat.testBit (7 - block % 8)

theorem StoredAt.storedBit_eq (h : StoredAt n start bitmap c)
    (hb : block < storedBlocks bitmap.blocks * bitsPerBlock) :
    storedBit start c block = bitmap.isFree block := by
  have hstored := (h (block / bitsPerBlock) (Nat.div_lt_of_lt_mul (Nat.mul_comm _ _ ▸ hb))).2
  have hbit := Packed.testBit_storedBlock bitmap (block / bitsPerBlock)
    (Nat.mod_lt (block / 8) (by decide : 512 > 0)) (Nat.mod_lt block (by decide : 8 > 0))
  have hblock : (block / bitsPerBlock * 512 + block / 8 % 512) * 8 + block % 8 = block := by
    unfold bitsPerBlock
    omega
  rw [storedBit, hstored, hbit, hblock]

theorem bitAt_of_spells {bytes : ByteArray}
    (h : Spells bytes (count * 512) fun k => c (start + k)) (hb : block < count * bitsPerBlock) :
    bitAt bytes block = storedBit start c block := by
  unfold bitsPerBlock at hb
  have hbyte : block / 8 < count * 512 := by omega
  have hdiv : block / 8 / 512 = block / bitsPerBlock := Nat.div_div_eq_div_mul block 8 512
  rw [bitAt, h.byte_eq hbyte, hdiv]
  rfl

theorem blocks_le_storedBits (blocks : Nat) : blocks ≤ storedBlocks blocks * bitsPerBlock := by
  unfold storedBlocks bitsPerBlock
  omega

/-! ## Storing and loading -/

/-- The `count` blocks from `start` on can be replaced. -/
def Replaceable (Holds : κ → (Nat → Block) → Prop) (start count : Nat) : Prop :=
  ∀ ⦃s c⦄, Holds s c → ∀ k, k < count → ∀ data, ∃ after,
    (BlockStore.writeBlock (start + k) data).run s = .ok () after

/-- No block besides the `count` ones from `start` on was changed. -/
def KeptBeside (start count : Nat) (c c' : Nat → Block) : Prop :=
  ∀ block, block < start ∨ start + count ≤ block → c' block = c block

theorem exists_run_writeStored (hS : ArrayStore n Holds) (hn : n < 0x100000000) (bitmap : Bitmap)
    {last : Nat} (hw : Replaceable Holds start last) (count : Nat) :
    ∀ {s : κ} {c : Nat → Block} {i : Nat}, Holds s c → i + count ≤ last →
      ∃ after, (writeStored bitmap start count i).run s = .ok () after := by
  induction count with
  | zero => exact fun {s _ _} _ _ => ⟨s, rfl⟩
  | succ count ih =>
    intro s c i h hle
    obtain ⟨middle, hwrite⟩ := hw h i (by omega) (bitmap.storedBlock i)
    have hi : start + i < n := hS.lt_of_write h hwrite
    have hat : storedAt start i = start + i := by
      unfold storedAt
      omega
    obtain ⟨after, hrest⟩ := ih ((hS.write_ends h _ _).of_ok hwrite) (i := i + 1) (by omega)
    exact ⟨after, by rw [writeStored, hat, run_bind_of_ok hwrite, hrest]⟩

/-- A bitmap is stored if its blocks can be replaced, and no other block is changed. -/
theorem run_write (hS : ArrayStore n Holds) (hn : n < 0x100000000)
    (hw : Replaceable Holds start (storedBlocks bitmap.blocks)) (h : Holds s c) :
    ∃ stored c', (bitmap.write start).run s = .ok () stored ∧ Holds stored c' ∧
      KeptBeside start (storedBlocks bitmap.blocks) c c' ∧ StoredAt n start bitmap c' := by
  obtain ⟨stored, hrun⟩ := exists_run_writeStored hS hn bitmap hw (storedBlocks bitmap.blocks)
    (i := 0) h (Nat.zero_add _).le
  obtain ⟨c', hc', hkept, hstored⟩ := (write_ends hS hn bitmap start h).of_ok hrun
  exact ⟨stored, c', hrun, hc', hkept, hstored rfl⟩

theorem isFree_ofBytes (blocks : Nat) (bytes : ByteArray) (block : Nat) :
    (ofBytes blocks bytes).isFree block = (decide (block < blocks) && bitAt bytes block) := by
  by_cases hb : block < blocks <;> simp [isFree, ofBytes, hb]

/-- Whatever is in the blocks of a bitmap, it is loaded. -/
theorem run_load_stored (hS : ArrayStore n Holds) (hn : n < 0x100000000)
    (hle : start + storedBlocks blocks ≤ n) (h : Holds s c) :
    ∃ bitmap after, (load start blocks).run s = .ok bitmap after ∧ Holds after c ∧
      bitmap.blocks = blocks ∧
      ∀ block, bitmap.isFree block = (decide (block < blocks) && storedBit start c block) := by
  obtain ⟨bytes, after, hrun, hafter, hspells⟩ := run_readStored hS hn start (storedBlocks blocks)
    (i := 0) ByteArray.empty h fun k _ hk => by omega
  rw [ByteArray.empty_append] at hrun
  refine ⟨ofBytes blocks bytes, after, run_bind_of_ok hrun _, hafter,
    (Tracks.stored blocks bytes).blocks_eq, fun block => ?_⟩
  rw [isFree_ofBytes]
  by_cases hb : block < blocks
  · have hbits : Spells bytes (storedBlocks blocks * 512) fun k => c (start + k) :=
      hspells.congr fun k _ => by rw [Nat.zero_add]
    rw [bitAt_of_spells hbits (Nat.lt_of_lt_of_le hb (blocks_le_storedBits blocks))]
  · rw [decide_eq_false hb, Bool.false_and, Bool.false_and]

/-! ## Forms -/

/-- A form in which bitmaps are kept. -/
structure Form (κ β : Type) where
  load (start blocks : Nat) : Action κ β
  write (bitmap : β) (start : Nat) : Action κ Unit
  blocks (bitmap : β) : Nat
  freeBlocks (bitmap : β) : Nat
  isFree (bitmap : β) (block : Nat) : Bool

namespace Form

/-- One truth value for each block. -/
def plain : Form κ Bitmap :=
  ⟨Bitmap.load, Bitmap.write, Bitmap.blocks, Bitmap.freeBlocks, Bitmap.isFree⟩

/-- Eight blocks in a byte, with the free ones counted. -/
def packed : Form κ Packed := ⟨Packed.load, Packed.write, Packed.blocks, Packed.free, Packed.isFree⟩

/-- The blocks from `start` on are a bitmap of `blocks` blocks, which is neither lost nor changed when
it is stored or loaded in this form. -/
structure Persists (form : Form κ β) (Holds : κ → (Nat → Block) → Prop) (start blocks : Nat)
    (Reached : β → Prop) : Prop where
  /-- What is stored is loaded again, and no other block is touched. -/
  restored {bitmap : β} {s : κ} {c : Nat → Block}
    (hw : Replaceable Holds start (storedBlocks blocks)) (hb : Reached bitmap) (h : Holds s c) :
    ∃ stored c' loaded after, (form.write bitmap start).run s = .ok () stored ∧ Holds stored c' ∧
      KeptBeside start (storedBlocks blocks) c c' ∧
      (form.load start blocks).run stored = .ok loaded after ∧ Holds after c' ∧
      form.blocks loaded = form.blocks bitmap ∧ form.freeBlocks loaded = form.freeBlocks bitmap ∧
      ∀ block, form.isFree loaded block = form.isFree bitmap block
  /-- Whatever is there is loaded: those blocks of the volume are free whose bit is set. -/
  loaded {s : κ} {c : Nat → Block} (h : Holds s c) :
    ∃ bitmap after, (form.load start blocks).run s = .ok bitmap after ∧ Holds after c ∧
      form.blocks bitmap = blocks ∧
      (∀ block, form.isFree bitmap block = (decide (block < blocks) && storedBit start c block)) ∧
      form.freeBlocks bitmap =
        ((Finset.range blocks).filter fun block => storedBit start c block = true).card
  /-- Stored again, it clears the bits that belong to no block of the volume, and changes nothing
  else. -/
  rewritten {bitmap : β} {s after : κ} {c : Nat → Block}
    (hw : Replaceable Holds start (storedBlocks blocks)) (h : Holds s c)
    (hload : (form.load start blocks).run s = .ok bitmap after) :
    ∃ stored c', (form.write bitmap start).run after = .ok () stored ∧ Holds stored c' ∧
      KeptBeside start (storedBlocks blocks) c c' ∧
      ∀ block, block < storedBlocks blocks * bitsPerBlock →
        storedBit start c' block = (decide (block < blocks) && storedBit start c block)

theorem Persists.mono {form : Form κ β} {Reached Reached' : β → Prop}
    (h : form.Persists Holds start blocks Reached) (hle : ∀ bitmap, Reached' bitmap → Reached bitmap) :
    form.Persists Holds start blocks Reached' where
  restored hw hb := h.restored hw (hle _ hb)
  loaded := h.loaded
  rewritten := h.rewritten

/-- A bitmap of as many blocks persists in the plain form. -/
theorem plain_persists (hS : ArrayStore n Holds) (hn : n < 0x100000000)
    (hle : start + storedBlocks blocks ≤ n) :
    (plain : Form κ Bitmap).Persists Holds start blocks fun bitmap => bitmap.blocks = blocks := by
  constructor
  case restored =>
    intro bitmap s c hw hb h
    subst hb
    obtain ⟨stored, c', hwrite, hc', hkept, hstored⟩ := run_write hS hn hw h
    obtain ⟨loaded, after, hload, hafter, halike⟩ := run_load hS hn hc' hstored
    have hcount : loaded.freeBlocks = bitmap.freeBlocks :=
      congrArg (Array.count true) halike.bits_eq
    exact ⟨stored, c', loaded, after, hwrite, hc', hkept, hload, hafter, halike.blocks_eq, hcount,
      halike.isFree_eq⟩
  case loaded =>
    intro s c h
    obtain ⟨bitmap, after, hload, hafter, hblocks, hfree⟩ := run_load_stored hS hn hle h
    have hcount : bitmap.freeBlocks =
        ((Finset.range blocks).filter fun block => storedBit start c block = true).card := by
      rw [freeBlocks_eq_card, hblocks]
      refine congrArg Finset.card (Finset.filter_congr fun block hb => ?_)
      rw [hfree, decide_eq_true (Finset.mem_range.mp hb), Bool.true_and]
    exact ⟨bitmap, after, hload, hafter, hblocks, hfree, hcount⟩
  case rewritten =>
    intro bitmap s after c hw h hload
    obtain ⟨_, _, hrun, hafter, hblocks, hfree⟩ := run_load_stored hS hn hle h
    obtain ⟨rfl, rfl⟩ := EStateM.Result.ok.inj (hload.symm.trans hrun)
    obtain ⟨stored, c', hwrite, hc', hkept, hstored⟩ := run_write hS hn (hblocks.symm ▸ hw) hafter
    rw [hblocks] at hkept
    exact ⟨stored, c', hwrite, hc', hkept, fun block hb =>
      (hstored.storedBit_eq (hblocks.symm ▸ hb)).trans (hfree block)⟩

end Form

/-! ## The packed form -/

namespace Packed

/-- What the packed form stores are its bytes, and they are what the bitmap is stored as. -/
theorem WellFormed.writeFrom_eq {packed : Packed} (h : packed.WellFormed) (start count i : Nat) :
    (writeFrom packed.bits start count i : Action κ Unit) =
      writeStored packed.unpack start count i := by
  induction count generalizing i with
  | zero => rfl
  | succ count ih =>
    have hblock : Bytes.ofSlice 512 packed.bits (i * 512) = packed.unpack.storedBlock i :=
      Bytes.ext_byte fun j hj => by rw [Bytes.byte_ofSlice, if_pos hj, h.byte_storedBlock i hj]
    rw [writeFrom, writeStored, hblock, ih]

theorem WellFormed.write_eq {packed : Packed} (h : packed.WellFormed) (start : Nat) :
    (packed.write start : Action κ Unit) = packed.unpack.write start := by
  have hcount : packed.bits.size / 512 = storedBlocks packed.unpack.blocks := by
    rw [h.size_eq, blocks_unpack, Nat.mul_div_cancel _ (by decide)]
  rw [write, Bitmap.write, hcount, h.writeFrom_eq]

/-- The packed form of what is loaded is loaded. -/
theorem exists_of_load {after : κ} (h : (Bitmap.load start blocks).run s = .ok bitmap after) :
    ∃ packed : Packed, (load start blocks).run s = .ok packed after ∧ packed.unpack = bitmap ∧
      packed.WellFormed := by
  obtain ⟨packed, _, hpacked, hrun⟩ := Run.exists_of_load h
  obtain ⟨hunpack, hwf, -⟩ := hrun.tracks
  exact ⟨packed, hpacked, hunpack, hwf⟩

end Packed

/-- What persists in the plain form persists in the packed one. -/
theorem Form.Persists.packed {Reached : Bitmap → Prop}
    (h : (Form.plain : Form κ Bitmap).Persists Holds start blocks Reached) :
    (Form.packed : Form κ Packed).Persists Holds start blocks fun packed =>
      packed.WellFormed ∧ Reached packed.unpack := by
  constructor
  case restored =>
    rintro packed s c hw ⟨hwf, hreached⟩ hs
    obtain ⟨stored, c', bitmap, after, hwrite, hc', hkept, hload, hafter, hblocks, hcount, hfree⟩ :=
      h.restored hw hreached hs
    obtain ⟨loaded, hloaded, rfl, hwf'⟩ := Packed.exists_of_load hload
    refine ⟨stored, c', loaded, after, ?_, hc', hkept, hloaded, hafter, ?_, ?_, fun block => ?_⟩
    · exact (congrArg (EStateM.run · s) (hwf.write_eq start)).trans hwrite
    · exact (Packed.blocks_unpack loaded).symm.trans (hblocks.trans (Packed.blocks_unpack packed))
    · exact hwf'.free_eq.trans (hcount.trans hwf.free_eq.symm)
    · exact (Packed.isFree_unpack loaded block).symm.trans
        ((hfree block).trans (Packed.isFree_unpack packed block))
  case loaded =>
    intro s c hs
    obtain ⟨bitmap, after, hload, hafter, hblocks, hfree, hcount⟩ := h.loaded hs
    obtain ⟨loaded, hloaded, rfl, hwf⟩ := Packed.exists_of_load hload
    refine ⟨loaded, after, hloaded, hafter, ?_, fun block => ?_, hwf.free_eq.trans hcount⟩
    · exact (Packed.blocks_unpack loaded).symm.trans hblocks
    · exact (Packed.isFree_unpack loaded block).symm.trans (hfree block)
  case rewritten =>
    intro packed s after c hw hs hload
    obtain ⟨bitmap, _, hplain, -, -, -, -⟩ := h.loaded hs
    obtain ⟨_, hloaded, rfl, hwf⟩ := Packed.exists_of_load hplain
    obtain ⟨rfl, rfl⟩ := EStateM.Result.ok.inj (hload.symm.trans hloaded)
    obtain ⟨stored, c', hwrite, hrest⟩ := h.rewritten hw hs hplain
    exact ⟨stored, c', (congrArg (EStateM.run · after) (hwf.write_eq start)).trans hwrite, hrest⟩

/-! ## Together -/

/-- Before a store that behaves as an array of blocks and has the blocks of the bitmap, bitmaps
persist in both forms, after every run of demands. -/
theorem Run.persists (hS : ArrayStore n Holds) (hn : n < 0x100000000)
    (hle : start + storedBlocks blocks ≤ n) :
    (Form.plain.Persists Holds start blocks fun bitmap =>
        ∃ packed stock, Run blocks packed bitmap stock) ∧
      Form.packed.Persists Holds start blocks fun packed =>
        ∃ bitmap stock, Run blocks packed bitmap stock := by
  have hplain := Form.plain_persists hS hn hle
  refine ⟨hplain.mono ?_, hplain.packed.mono ?_⟩
  · rintro bitmap ⟨packed, stock, hrun⟩
    exact hrun.tracks.2.2.blocks_eq
  · rintro packed ⟨bitmap, stock, hrun⟩
    obtain ⟨rfl, hwf, htracks⟩ := hrun.tracks
    exact ⟨hwf, htracks.blocks_eq⟩

/-- The bitmap of nine blocks in the last one of seven blocks in memory, which can be replaced. -/
theorem Run.persists_memory :
    let Holds (memory : Memory) (c : Nat → Block) := memory.size = 7 ∧ memory.blocks = c
    Replaceable Holds 6 (storedBlocks 9) ∧
      (Form.plain.Persists Holds 6 9 fun bitmap => ∃ packed stock, Run 9 packed bitmap stock) ∧
      Form.packed.Persists Holds 6 9 fun packed => ∃ bitmap stock, Run 9 packed bitmap stock := by
  intro Holds
  refine ⟨fun memory c h k hk data => ?_,
    Run.persists (Memory.exactStore 7).arrayStore (by decide) (by decide)⟩
  have hone : k < 1 := hk
  have hwritten := (Memory.exactStore 7).write_outcome h (6 + k) data
  rw [if_pos (by omega)] at hwritten
  exact ⟨_, run_eq_ok_of_outcome hwritten⟩

end Diskette.Bitmap
