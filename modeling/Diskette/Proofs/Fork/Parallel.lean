import Diskette.Fork.Freeing
import Diskette.Fork.Writing
import Diskette.Proofs.Agree

/-!
# Files on stores that agree

What is done to bitmaps and forks is done through blocks that are read and replaced. On two kinds of
store that agree on that, it comes to the same, a value or an error, and the bitmaps that are left
are the same.

* `StoresAgree`: two kinds of store that agree in related states.
* `parallel_load`, `parallel_write`: stored bitmaps.
* `parallel_normalize`, `parallel_readIndex`, `parallel_readFork`: reading.
* `parallel_freeFork`, `parallel_writeFork`, `parallel_writeExtended`: freeing and writing.
-/

namespace Diskette

open Diskette.Action

variable {κ κ' : Type} [BlockStore κ] [BlockStore κ'] {R : κ → κ' → Prop}

/-- In related states the two kinds of store agree, and the states stay related. -/
structure StoresAgree (R : κ → κ' → Prop) : Prop where
  readBlock (block : Nat) : Parallel R (BlockStore.readBlock block) (BlockStore.readBlock block)
  writeBlock (block : Nat) (data : Block) :
    Parallel R (BlockStore.writeBlock block data) (BlockStore.writeBlock block data)

/-! ## Stored bitmaps -/

namespace Bitmap

theorem parallel_readStored (hR : StoresAgree R) (start count : Nat) :
    ∀ i acc, Parallel R (readStored start count i acc) (readStored start count i acc) := by
  induction count with
  | zero => exact fun _ _ => parallel_pure _
  | succ count ih => exact fun _ _ => (hR.readBlock _).bind fun _ => ih _ _

theorem parallel_load (hR : StoresAgree R) (start blocks : Nat) :
    Parallel R (load start blocks) (load start blocks) :=
  (parallel_readStored hR start _ 0 _).bind fun _ => parallel_pure _

theorem parallel_writeStored (hR : StoresAgree R) (bitmap : Bitmap) (start count : Nat) :
    ∀ i, Parallel R (bitmap.writeStored start count i) (bitmap.writeStored start count i) := by
  induction count with
  | zero => exact fun _ => parallel_pure _
  | succ count ih => exact fun _ => (hR.writeBlock _ _).bind fun _ => ih _

theorem parallel_write (hR : StoresAgree R) (bitmap : Bitmap) (start : Nat) :
    Parallel R (bitmap.write start) (bitmap.write start) :=
  parallel_writeStored hR bitmap start _ 0

end Bitmap

/-! ## Reading -/

theorem parallel_normalize (hR : StoresAgree R) (descriptor : Descriptor) (fork : Fork) :
    Parallel R (normalize descriptor fork) (normalize descriptor fork) := by
  unfold normalize
  split
  · exact (hR.readBlock _).bind fun _ => parallel_ofExcept _
  · exact parallel_pure _
  · exact parallel_throw _

theorem parallel_readLeaf (hR : StoresAgree R) (root len : Nat) :
    Parallel R (readLeaf root len) (readLeaf root len) := by
  unfold readLeaf
  split
  · exact parallel_pure _
  · exact (hR.readBlock _).bind fun _ => parallel_pure _

theorem parallel_readNode (hR : StoresAgree R) (root : Nat) :
    Parallel R (readNode root) (readNode root) := by
  unfold readNode
  split
  · exact parallel_pure _
  · exact hR.readBlock _

omit [BlockStore κ] [BlockStore κ'] in
theorem parallel_readChildren {child : Nat → Nat → Nat → Action κ ByteArray}
    {child' : Nat → Nat → Nat → Action κ' ByteArray}
    (hchild : ∀ root len offset, Parallel R (child root len offset) (child' root len offset))
    (span : Nat) (node : Block) (count : Nat) :
    ∀ index len offset acc, Parallel R (readChildren child span node count index len offset acc)
      (readChildren child' span node count index len offset acc) := by
  induction count with
  | zero => exact fun _ _ _ _ => parallel_pure _
  | succ count ih =>
    intro index len offset acc
    unfold readChildren
    split
    · exact parallel_pure _
    · exact (hchild _ _ _).bind fun _ => ih _ _ _ _

theorem parallel_readIndex (hR : StoresAgree R) (level : Nat) :
    ∀ root len offset, Parallel R (readIndex level root len offset)
      (readIndex level root len offset) := by
  induction level with
  | zero => exact fun root len _ => parallel_readLeaf hR root len
  | succ level ih =>
    intro root len offset
    exact (parallel_readNode hR root).bind fun node => parallel_readChildren ih _ node _ _ _ _ _

theorem parallel_readFork (hR : StoresAgree R) (descriptor : Descriptor) (fork : Fork) :
    Parallel R (readFork descriptor fork) (readFork descriptor fork) := by
  refine (parallel_normalize hR descriptor fork).bind fun plain => ?_
  cases plain.storageType.levels? with
  | none => exact parallel_throw _
  | some levels => exact (parallel_readIndex hR levels _ _ _).bind fun _ => parallel_pure _

/-! ## Freeing -/

omit [BlockStore κ] [BlockStore κ'] in
theorem parallel_releaseBlock (block : Nat) :
    Parallel (Beside R) (releaseBlock block) (releaseBlock block) := by
  refine parallel_modify ?_
  rintro ⟨s, bitmap⟩ ⟨t, _⟩ ⟨h, rfl⟩
  exact ⟨h, rfl⟩

omit [BlockStore κ] [BlockStore κ'] in
theorem parallel_freeChildren {child : Nat → Action (κ × Bitmap) Unit}
    {child' : Nat → Action (κ' × Bitmap) Unit}
    (hchild : ∀ root, Parallel (Beside R) (child root) (child' root)) (node : Block) (count : Nat) :
    ∀ index, Parallel (Beside R) (freeChildren child node count index)
      (freeChildren child' node count index) := by
  induction count with
  | zero => exact fun _ => parallel_pure _
  | succ count ih => exact fun _ => (hchild _).bind fun _ => ih _

theorem parallel_freeSubtree (hR : StoresAgree R) (level : Nat) :
    ∀ root, Parallel (Beside R) (freeSubtree level root) (freeSubtree level root) := by
  induction level with
  | zero =>
    intro root
    unfold freeSubtree
    split
    · exact parallel_pure _
    · exact parallel_releaseBlock _
  | succ level ih =>
    intro root
    unfold freeSubtree
    split
    · exact parallel_pure _
    · exact (hR.readBlock root).onFirst.bind fun node =>
        (parallel_freeChildren ih node _ _).bind fun _ => parallel_releaseBlock _

theorem parallel_freePlain (hR : StoresAgree R) (descriptor : Descriptor) :
    Parallel (Beside R) (freePlain descriptor) (freePlain descriptor) := by
  unfold freePlain
  split
  · exact parallel_freeSubtree hR _ _
  · exact parallel_pure _

theorem parallel_freeFork (hR : StoresAgree R) (descriptor : Descriptor) :
    Parallel (Beside R) (freeFork descriptor) (freeFork descriptor) := by
  unfold freeFork
  split
  · exact parallel_freeSubtree hR _ _
  · exact (parallel_normalize hR descriptor .data).onFirst.bind fun dataFork =>
      (parallel_freePlain hR dataFork).bind fun _ =>
        (parallel_normalize hR descriptor .resource).onFirst.bind fun resourceFork =>
          (parallel_freePlain hR resourceFork).bind fun _ => parallel_releaseBlock _

/-! ## Writing -/

namespace Draft

/-- The stores are related, and the same blocks are taken from the same bitmap. -/
structure Alike (R : κ → κ' → Prop) (draft : Draft κ) (other : Draft κ') : Prop where
  store : R draft.store other.store
  bitmap_eq : other.bitmap = draft.bitmap
  taken_eq : other.taken = draft.taken

omit [BlockStore κ] [BlockStore κ'] in
theorem parallel_takeBlock : Parallel (Alike R) takeBlock takeBlock := by
  rintro ⟨store, bitmap, taken⟩ ⟨store', bitmap', taken'⟩ ⟨hstore, hbitmap, htaken⟩
  obtain rfl : bitmap = bitmap' := hbitmap.symm
  obtain rfl : taken = taken' := htaken.symm
  unfold Agree EStateM.run takeBlock
  dsimp only
  cases bitmap.alloc with
  | mk found bitmap =>
    cases found with
    | some block => exact ⟨rfl, hstore, rfl, rfl⟩
    | none => exact ⟨rfl, hstore, rfl, rfl⟩

theorem parallel_putBlock (hR : StoresAgree R) (block : Nat) (data : Block) :
    Parallel (Alike R) (putBlock block data) (putBlock block data) :=
  (hR.writeBlock block data).zoom (fun h => h.store) fun h hstore =>
    ⟨hstore, h.bitmap_eq, h.taken_eq⟩

omit [BlockStore κ] [BlockStore κ'] in
theorem parallel_used : Parallel (Alike R) used used := by
  refine parallel_ask fun draft other h => ?_
  rw [h.taken_eq]

omit [BlockStore κ] [BlockStore κ'] in
theorem parallel_writeChildren {child : Nat → Action (Draft κ) Nat}
    {child' : Nat → Action (Draft κ') Nat}
    (hchild : ∀ first, Parallel (Alike R) (child first) (child' first)) (span count : Nat) :
    ∀ first pointers, Parallel (Alike R) (writeChildren child span count first pointers)
      (writeChildren child' span count first pointers) := by
  induction count with
  | zero => exact fun _ _ => parallel_pure _
  | succ count ih =>
    exact fun _ _ => (hchild _).bind fun _ => (parallel_ofExcept _).bind fun _ => ih _ _

theorem parallel_writeSubtree (hR : StoresAgree R) (data : ByteArray) (blocks level : Nat) :
    ∀ first, Parallel (Alike R) (writeSubtree data blocks level first)
      (writeSubtree data blocks level first) := by
  induction level with
  | zero =>
    intro first
    unfold writeSubtree
    split
    · exact parallel_pure _
    · exact parallel_takeBlock.bind fun _ =>
        (parallel_putBlock hR _ _).bind fun _ => parallel_pure _
  | succ level ih =>
    intro first
    unfold writeSubtree
    dsimp only
    split
    · exact parallel_pure _
    · exact parallel_takeBlock.bind fun _ => (parallel_writeChildren ih _ _ _ _).bind fun _ =>
        (parallel_putBlock hR _ _).bind fun _ => parallel_pure _

theorem parallel_writePlain (hR : StoresAgree R) (data : ByteArray) :
    Parallel (Alike R) (writePlain data) (writePlain data) := by
  unfold writePlain
  split
  · exact parallel_throw _
  · exact (parallel_writeSubtree hR _ _ _ _).bind fun _ =>
      parallel_used.bind fun _ => parallel_pure _

theorem parallel_writeBoth (hR : StoresAgree R) (data resource : ByteArray) :
    Parallel (Alike R) (writeBoth data resource) (writeBoth data resource) := by
  refine parallel_takeBlock.bind fun key => ?_
  refine (parallel_writePlain hR data).bind fun dataFork => parallel_used.bind fun before => ?_
  refine (parallel_writePlain hR resource).bind fun resourceFork => ?_
  refine (parallel_ofExcept _).bind fun _ => (parallel_ofExcept _).bind fun _ => ?_
  exact (parallel_putBlock hR key _).bind fun _ => parallel_used.bind fun _ => parallel_pure _

omit [BlockStore κ] [BlockStore κ'] in
/-- What was taken is released again on both sides. -/
theorem parallel_commit {write : Action (Draft κ) Descriptor} {write' : Action (Draft κ') Descriptor}
    (h : Parallel (Alike R) write write') : Parallel (Beside R) (commit write) (commit write') := by
  rintro ⟨store, bitmap⟩ ⟨store', bitmap'⟩ ⟨hstore, hbitmap⟩
  obtain rfl : bitmap = bitmap' := hbitmap.symm
  have hstart : Alike R (⟨store, bitmap, []⟩ : Draft κ) (⟨store', bitmap, []⟩ : Draft κ') :=
    ⟨hstore, rfl, rfl⟩
  unfold Agree EStateM.run commit
  dsimp only
  rcases (h hstart).cases with ⟨a, draft, other, hs, ht, hd⟩ | ⟨e, draft, other, hs, ht, hd⟩
  · unfold EStateM.run at hs ht
    rw [hs, ht]
    exact ⟨rfl, hd.store, hd.bitmap_eq⟩
  · unfold EStateM.run at hs ht
    rw [hs, ht]
    refine ⟨rfl, hd.store, ?_⟩
    dsimp only
    rw [hd.taken_eq, hd.bitmap_eq]

end Draft

theorem parallel_writeFork (hR : StoresAgree R) (data : ByteArray) :
    Parallel (Beside R) (writeFork data) (writeFork data) :=
  Draft.parallel_commit (Draft.parallel_writePlain hR data)

theorem parallel_writeExtended (hR : StoresAgree R) (data resource : ByteArray) :
    Parallel (Beside R) (writeExtended data resource) (writeExtended data resource) :=
  Draft.parallel_commit (Draft.parallel_writeBoth hR data resource)

end Diskette
