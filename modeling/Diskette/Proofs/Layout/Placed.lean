import Diskette.Layout.Interleaved
import Diskette.Layout.Sequential
import Diskette.Proofs.Files
import Mathlib.Logic.Function.Basic

/-!
# Blocks at fixed positions

In the sequential and in the interleaved layout every byte of every block has a position in the file
of its own. The blocks of a file are then independent: a block is read from its positions, and a
write changes those and no others.

* `Placed.replace`: when a block was replaced, the others are as they were.
* `Sequential.readBlock_eq`, `Sequential.run_writeBlock`: the sequential layout.
* `Interleaved.readBlock_eq`, `Interleaved.run_writeBlock`: the interleaved layout.
-/

namespace Diskette.Layout

/-- The blocks of `c` below `blocks` are in `data`, byte `i` of block `block` at
`position block i`. -/
def Placed (position : Nat → Nat → Nat) (blocks : Nat) (data : ByteArray) (c : Nat → Block) : Prop :=
  ∀ block, block < blocks → ∀ i, i < 512 → byteAt data (position block i) = (c block).byte i

/-- What a write of a block does to the host. -/
structure BlockWritten (file : String) (position : Nat → Nat → Nat) (block : Nat) (data : Block)
    (before after : Host) : Prop
    extends Host.Kept file (fun k => ∃ i, i < 512 ∧ k = position block i) before after where
  byteAt_eq {i : Nat} (h : i < 512) :
    byteAt (after.contents file) (position block i) = data.byte i

/-- When a block was replaced, the others are as they were, because no position is shared. -/
theorem Placed.replace {position : Nat → Nat → Nat} {blocks block : Nat} {file : String}
    {before after : Host} {c : Nat → Block} {data : Block}
    (h : Placed position blocks (before.contents file) c)
    (hw : BlockWritten file position block data before after)
    (hinj : ∀ {a b i j : Nat}, i < 512 → j < 512 → position a i = position b j → a = b) :
    Placed position blocks (after.contents file) (Function.update c block data) := by
  intro b hb i hi
  by_cases he : b = block
  · subst he
    rw [Function.update_self, hw.byteAt_eq hi]
  · rw [Function.update_of_ne he, hw.byte_eq, h b hb i hi]
    rintro ⟨j, hj, heq⟩
    exact he (hinj hi hj heq)

/-! ## The sequential layout -/

namespace Sequential

variable {layout : Sequential} {storage : Storage} {host : Host} {block : Nat} {c : Nat → Block}

/-- Where byte `i` of a block is. -/
def position (layout : Sequential) (block i : Nat) : Nat := layout.offset block + i

theorem base_le_position (layout : Sequential) (block i : Nat) :
    layout.base ≤ layout.position block i := by
  unfold position offset
  omega

theorem position_inj {a b i j : Nat} (hi : i < 512) (hj : j < 512)
    (h : layout.position a i = layout.position b j) : a = b := by
  unfold position offset at h
  omega

/-- The blocks of a storage are those of `c`. -/
structure Holds (layout : Sequential) (size : Nat) (data : ByteArray) (c : Nat → Block) : Prop where
  fits : layout.base + layout.blocks * 512 ≤ size
  placed : Placed layout.position layout.blocks data c

theorem readBlock_eq (hs : storage.Backed host)
    (h : layout.Holds storage.size (host.contents storage.file) c) (hb : block < layout.blocks) :
    layout.readBlock storage host block = .ok (c block) := by
  have hle : layout.offset block + 512 ≤ storage.size := by
    have := h.fits
    unfold offset
    omega
  have hdata : (Bytes.ofSlice 512 (slice (host.contents storage.file) (layout.offset block) 512) 0 :
      Block) = c block := by
    refine Bytes.ext_byte fun i hi => ?_
    rw [Bytes.byte_ofSlice, if_pos hi, byteAt_slice, Nat.zero_add, if_pos hi]
    exact h.placed block hb i hi
  rw [readBlock, checkBlock_eq_ok_iff.mpr hb, hs.read_eq hle]
  simp only [bind, Except.bind, pure, Except.pure, hdata]

/-- The bytes of a block are written to its positions. -/
theorem blockWritten_writeAt (hs : storage.Backed host)
    (hle : layout.offset block + 512 ≤ storage.size) (data : Block) :
    BlockWritten storage.file layout.position block data host
      (host.writeAt storage.file (layout.offset block) data.data) := by
  refine ⟨hs.kept_writeAt (data.size_data.symm ▸ hle) fun k hlo hhi => ?_, fun {i} hi => ?_⟩
  · rw [data.size_data] at hhi
    exact ⟨k - layout.offset block, by omega, by unfold position; omega⟩
  · rw [hs.contents_writeAt, byteAt_overwrite, data.size_data, position, if_pos (by omega),
      Nat.add_sub_cancel_left]
    rfl

theorem run_writeBlock (hs : storage.Backed host) (hw : storage.readOnly = false)
    (hfits : layout.base + layout.blocks * 512 ≤ storage.size) (hb : block < layout.blocks)
    (data : Block) :
    ∃ after, (layout.writeBlock storage block data).run host = .ok () after ∧
      BlockWritten storage.file layout.position block data host after := by
  have hle : layout.offset block + 512 ≤ storage.size := by
    unfold offset
    omega
  refine ⟨_, ?_, blockWritten_writeAt hs hle data⟩
  rw [writeBlock, EStateM.run_bind, checkBlock_eq_ok_iff.mpr hb]
  exact hs.run_write hw (data.size_data.symm ▸ hle)

end Sequential

/-! ## The interleaved layout -/

namespace Interleaved

variable {layout : Interleaved} {storage : Storage} {host : Host} {block : Nat} {c : Nat → Block}

/-- Where byte `i` of a block is. -/
def position (layout : Interleaved) (block i : Nat) : Nat :=
  if i < 256 then layout.firstOffset block + i else layout.secondOffset block + (i - 256)

theorem base_le_position (layout : Interleaved) (block i : Nat) :
    layout.base ≤ layout.position block i := by
  unfold position firstOffset secondOffset sectorOffset
  split
  · omega
  · omega

private theorem sectorOrder_lt (half : Fin 16) : sectorOrder.get half < 16 := by
  revert half
  decide

theorem sectorOffset_inj {s t : Nat} {a b : Fin 16} {i j : Nat} (hi : i < 256) (hj : j < 256)
    (h : layout.sectorOffset s a + i = layout.sectorOffset t b + j) : s = t ∧ a = b := by
  have ha := sectorOrder_lt a
  have hb := sectorOrder_lt b
  unfold sectorOffset at h
  have hs : s = t := by omega
  exact ⟨hs, sectorOrder_injective (by subst hs; omega)⟩

theorem position_inj {a b i j : Nat} (hi : i < 512) (hj : j < 512)
    (h : layout.position a i = layout.position b j) : a = b := by
  unfold position firstOffset secondOffset at h
  split at h
  · split at h
    · obtain ⟨ht, hhalf⟩ := sectorOffset_inj (by omega) (by omega) h
      exact firstHalf_injective ht hhalf
    · obtain ⟨-, hhalf⟩ := sectorOffset_inj (by omega) (by omega) h
      exact absurd hhalf (firstHalf_ne_secondHalf a b)
  · split at h
    · obtain ⟨-, hhalf⟩ := sectorOffset_inj (by omega) (by omega) h
      exact absurd hhalf.symm (firstHalf_ne_secondHalf b a)
    · obtain ⟨ht, hhalf⟩ := sectorOffset_inj (by omega) (by omega) h
      simp only [secondHalf, Fin.mk.injEq] at hhalf
      omega

/-- The blocks of a storage are those of `c`. -/
structure Holds (layout : Interleaved) (size : Nat) (data : ByteArray) (c : Nat → Block) : Prop where
  whole : layout.blocks % 8 = 0
  fits : layout.base + layout.blocks * 512 ≤ size
  placed : Placed layout.position layout.blocks data c

/-- Every half block ends inside the data. -/
theorem sectorOffset_add_le {size : Nat} (hwhole : layout.blocks % 8 = 0)
    (hfits : layout.base + layout.blocks * 512 ≤ size) (hb : block < layout.blocks)
    (half : Fin 16) : layout.sectorOffset (block / 8) half + 256 ≤ size := by
  have := sectorOrder_lt half
  unfold sectorOffset
  omega

theorem readBlock_eq (hs : storage.Backed host)
    (h : layout.Holds storage.size (host.contents storage.file) c) (hb : block < layout.blocks) :
    layout.readBlock storage host block = .ok (c block) := by
  have hdata : ((Bytes.ofSlice 256
      (slice (host.contents storage.file) (layout.firstOffset block) 256) 0).append
      (Bytes.ofSlice 256 (slice (host.contents storage.file) (layout.secondOffset block) 256) 0) :
      Block) = c block := by
    refine Bytes.ext_byte fun i hi => ?_
    have := h.placed block hb i hi
    rw [Bytes.byte_append, ← this, position]
    split
    · next hlt => rw [Bytes.byte_ofSlice, if_pos hlt, byteAt_slice, Nat.zero_add, if_pos hlt]
    · next hlt =>
      rw [Bytes.byte_ofSlice, if_pos (by omega), byteAt_slice, Nat.zero_add, if_pos (by omega)]
  have hfirst : layout.firstOffset block + 256 ≤ storage.size :=
    sectorOffset_add_le h.whole h.fits hb (firstHalf block)
  have hsecond : layout.secondOffset block + 256 ≤ storage.size :=
    sectorOffset_add_le h.whole h.fits hb (secondHalf block)
  rw [readBlock, checkBlock_eq_ok_iff.mpr hb, hs.read_eq hfirst, hs.read_eq hsecond]
  simp only [bind, Except.bind, pure, Except.pure]
  exact congrArg Except.ok hdata

theorem run_writeBlock (hs : storage.Backed host) (hw : storage.readOnly = false)
    (hwhole : layout.blocks % 8 = 0) (hfits : layout.base + layout.blocks * 512 ≤ storage.size)
    (hb : block < layout.blocks) (data : Block) :
    ∃ after, (layout.writeBlock storage block data).run host = .ok () after ∧
      BlockWritten storage.file layout.position block data host after := by
  have hsize : (slice data.data 0 256).size = 256 := by rw [size_slice, data.size_data]; rfl
  have hsize' : (slice data.data 256 256).size = 256 := by rw [size_slice, data.size_data]; rfl
  have hfirst : layout.firstOffset block + 256 ≤ storage.size :=
    sectorOffset_add_le hwhole hfits hb (firstHalf block)
  have hsecond : layout.secondOffset block + 256 ≤ storage.size :=
    sectorOffset_add_le hwhole hfits hb (secondHalf block)
  let middle := host.writeAt storage.file (layout.firstOffset block) (slice data.data 0 256)
  have hk : Host.Kept storage.file (fun k => ∃ i, i < 512 ∧ k = layout.position block i) host middle :=
    hs.kept_writeAt (by omega) fun k hlo hhi =>
      ⟨k - layout.firstOffset block, by omega, by rw [position, if_pos (by omega)]; omega⟩
  have hs' : storage.Backed middle := hs.kept hk
  refine ⟨middle.writeAt storage.file (layout.secondOffset block) (slice data.data 256 256), ?_,
    hk.trans (hs'.kept_writeAt (by omega) fun k hlo hhi => ?_), fun {i} hi => ?_⟩
  · rw [writeBlock, EStateM.run_bind, checkBlock_eq_ok_iff.mpr hb]
    change ((storage.write _ _ >>= fun _ => storage.write _ _).run host) = _
    rw [EStateM.run_bind, hs.run_write hw (by omega)]
    exact hs'.run_write hw (by omega)
  · exact ⟨k - layout.secondOffset block + 256, by omega, by
      rw [position, if_neg (by omega)]; omega⟩
  · -- The second write leaves the first half alone.
    rw [hs'.contents_writeAt, byteAt_overwrite, hsize', hs.contents_writeAt, byteAt_overwrite, hsize,
      position]
    by_cases hlt : i < 256
    · have hne : ¬ (layout.secondOffset block ≤ layout.firstOffset block + i ∧
          layout.firstOffset block + i < layout.secondOffset block + 256) := by
        rintro ⟨hlo, hhi⟩
        have heq : layout.sectorOffset (block / 8) (firstHalf block) + i =
            layout.sectorOffset (block / 8) (secondHalf block) +
              (layout.firstOffset block + i - layout.secondOffset block) := by
          change layout.firstOffset block + i = layout.secondOffset block + _
          omega
        exact firstHalf_ne_secondHalf block block (sectorOffset_inj hlt (by omega) heq).2
      rw [if_pos hlt, if_neg hne, if_pos (by omega), Nat.add_sub_cancel_left, byteAt_slice,
        if_pos hlt, Nat.zero_add]
      rfl
    · rw [if_neg hlt, if_pos (by omega), Nat.add_sub_cancel_left, byteAt_slice, if_pos (by omega),
        show 256 + (i - 256) = i by omega]
      rfl

end Interleaved

end Diskette.Layout
