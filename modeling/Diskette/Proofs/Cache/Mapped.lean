import Diskette.Cache.Mapping
import Diskette.Proofs.Device.Plain
import Diskette.Proofs.Requests

/-!
# Mappings of plain images

A mapping of a plain image reads a block from its positions in the file, and a write of a block is
in the file at once. Bringing the changed blocks to the medium does nothing to the file and cannot
fail where the host does not, so a sync is a flush of the device.

* `Device.Sited.mappedBlock_eq`, `Device.Sited.updateMapped_ends`: the parts of a mapping.
* `Device.Sited.updateMapped_wrote`: what a change in the mapping comes to.
* `readBlock_ends`, `writeBlock_ends`, `run_syncDirty`: what the mapping does.
-/

namespace Diskette

open Diskette.Action

variable {layout : Layout.Sequential} {state : Device × Host} {block : Nat}

namespace Storage

variable {storage : Storage} {host : Host} {offset len : Nat} {data : ByteArray}

theorem Backed.mappedSlice?_eq (h : storage.Backed host) (hm : storage.mapped = true)
    (hle : offset + len ≤ storage.size) :
    storage.mappedSlice? host offset len =
      .ok (some (slice (host.contents storage.file) offset len)) := by
  unfold mappedSlice?
  rw [checkRange_eq_ok_iff.mpr hle, hm, h.checkPresent_eq hle]
  rfl

theorem Backed.run_writeMapped (h : storage.Backed host) (hm : storage.mapped = true)
    (hw : storage.readOnly = false) (hle : offset + data.size ≤ storage.size) :
    (storage.writeMapped offset data).run host =
      .ok true (host.writeAt storage.file offset data) := by
  have hput : (storage.putMapped offset data).run host =
      .ok () (host.writeAt storage.file offset data) := by
    rw [run_putMapped, h.checkPresent_eq hle]
  unfold writeMapped
  rw [checkWrite_eq_ok_iff.mpr ⟨hw, hle⟩, hm]
  exact run_bind_of_ok hput _

end Storage

namespace Device

theorem Sited.mappedOffset_eq (h : Sited layout state) (hb : block < layout.blocks) :
    state.1.mappedOffset block = .ok (layout.offset block) := by
  have hcheck : checkBlock block state.1.blocks = .ok () :=
    checkBlock_eq_ok_iff.mpr (h.blocks_eq ▸ hb)
  have hoffset : state.1.container.blockOffset? block = some (layout.offset block) := by
    unfold Container.blockOffset?
    rw [h.layout_eq]
    exact if_pos hb
  unfold mappedOffset
  rw [hcheck, hoffset]
  rfl

theorem Sited.checkRange_eq (h : Sited layout state) (hb : block < layout.blocks) :
    state.1.storage.checkRange (layout.offset block) 512 = .ok () := if_pos (h.le_size hb)

/-- A block is where its bytes are in the file. -/
theorem Sited.mappedBlock_eq (h : Sited layout state) (hm : state.1.storage.mapped = true)
    (hb : block < layout.blocks) :
    state.1.mappedBlock state.2 block =
      .ok (bytesAt layout.position (contents state) block) := by
  have hslice : state.1.storage.mappedSlice? state.2 (layout.offset block) 512 =
      .ok (some (slice (contents state) (layout.offset block) 512)) :=
    h.backed.mappedSlice?_eq hm (h.le_size hb)
  have hbytes : (Bytes.ofSlice 512 (slice (contents state) (layout.offset block) 512) 0 : Block) =
      bytesAt layout.position (contents state) block := by
    refine Bytes.ext_byte fun i hi => ?_
    rw [Bytes.byte_ofSlice, if_pos hi, byteAt_slice, Nat.zero_add, if_pos hi, byte_bytesAt _ _ _ hi]
    rfl
  unfold mappedBlock
  rw [h.mappedOffset_eq hb]
  simp only [bind, Except.bind, hslice, hbytes]
  rfl

/-- A change of a block in the mapping is a write of the block. -/
theorem Sited.updateMapped_ends (h : Sited layout state) (hm : state.1.storage.mapped = true)
    (hb : block < layout.blocks) (change : Block → Block) :
    Ends (updateMapped block change) state fun r s =>
      if state.1.readOnly then r = .error .readOnly ∧ s = state
      else r = .ok () ∧
        Wrote layout block (change (bytesAt layout.position (contents state) block)) state s := by
  obtain ⟨⟨storage, container, readOnly, modified⟩, host⟩ := state
  unfold updateMapped
  cases readOnly with
  | true => exact ends_bind.mpr (ends_ask.mpr ⟨rfl, rfl⟩)
  | false =>
    have hoffset : (⟨storage, container, false, modified⟩ : Device).writableOffset block =
        .ok (layout.offset block) := h.mappedOffset_eq hb
    have hdata := h.noteModified.mappedBlock_eq hm hb
    have hle := h.le_size hb
    have hrun (data : Block) : (do
          let _ ← storage.writeMapped (layout.offset block) data.data : Action Host Unit).run host =
        .ok () (host.writeAt storage.file (layout.offset block) data.data) :=
      run_bind_of_ok (h.backed.run_writeMapped hm (h.writable rfl)
        (by rw [data.size_data]; exact hle)) _
    simp only [ends_bind, ends_ask, hoffset, ends_modify, hdata]
    refine ends_onContainer.mpr (ends_onSecond.mpr ((ends_of_run_eq_ok (hrun _)).mpr ?_))
    exact ⟨rfl, rfl, layout.blockWritten_writeAt h.backed hle _⟩

/-- What a change in the mapping comes to, of any block: it is written, or nothing happens. -/
theorem Sited.updateMapped_wrote (h : Sited layout state) (hm : state.1.storage.mapped = true)
    (block : Nat) (change : Block → Block) :
    Ends (updateMapped block change) state fun r s =>
      match r with
      | .ok _ => state.1.readOnly = false ∧ ∃ bytes, Wrote layout block bytes state s
      | .error _ => s = state := by
  by_cases hb : block < layout.blocks
  · refine (h.updateMapped_ends hm hb change).mono fun r s hs => ?_
    split at hs
    · obtain ⟨rfl, rfl⟩ := hs
      rfl
    · next hro =>
      obtain ⟨rfl, hw⟩ := hs
      exact ⟨Bool.eq_false_iff.mpr hro, _, hw⟩
  · have hrefused : ∃ e, state.1.writableOffset block = .error e := by
      have hcheck : checkBlock block state.1.blocks =
          .error (.blockOutOfRange block state.1.blocks) := if_neg (h.blocks_eq ▸ hb)
      unfold writableOffset mappedOffset
      rw [hcheck]
      split
      · exact ⟨_, rfl⟩
      · exact ⟨_, rfl⟩
    obtain ⟨e, he⟩ := hrefused
    refine ends_bind.mpr (ends_ask.mpr ?_)
    simp only [he]

end Device

namespace Mapping

variable {mapping : Mapping} {direct : Mapping × Device × Host}

open Device

theorem acquire_ends (h : Sited layout state) (block : Nat) :
    Ends (BlockCache.acquire block) (mapping, state) fun r s => s = (mapping, state) ∧
      r = if block < layout.blocks then .ok ⟨block, block⟩
        else .error (.blockOutOfRange block layout.blocks) := by
  have hrun := run_acquire block mapping state.1 state.2
  rw [h.blocks_eq] at hrun
  have hends : Ends (acquire block) (mapping, state) fun r s => s = (mapping, state) ∧
      r = if block < layout.blocks then .ok ⟨block, block⟩
        else .error (.blockOutOfRange block layout.blocks) := by
    by_cases hb : block < layout.blocks
    · rw [if_pos hb] at hrun ⊢
      exact (ends_of_run_eq_ok hrun).mpr ⟨rfl, rfl⟩
    · rw [if_neg hb] at hrun ⊢
      exact (ends_of_run_eq_error hrun).mpr ⟨rfl, rfl⟩
  exact hends

/-- A block is given back unchanged. -/
theorem run_release_unchanged (h : Sited layout state) (hb : block < layout.blocks) :
    (BlockCache.release ⟨block, block⟩ false false).run (mapping, state) =
      .ok () (mapping, state) := by
  have hcheck : (ask fun cache => checkBlock block cache.2.1.blocks :
      Action (Mapping × Device × Host) Unit).run (mapping, state) = .ok () (mapping, state) :=
    run_ask_of_ok (checkBlock_eq_ok_iff.mpr (h.blocks_eq ▸ hb))
  exact run_bind_of_ok hcheck _

/-- A block is given back as changed, which is recorded. -/
theorem run_release_changed (h : Sited layout state) (hb : block < layout.blocks)
    (hro : state.1.readOnly = false) :
    (BlockCache.release ⟨block, block⟩ true false).run (mapping, state) =
      .ok () (⟨mapping.dirty.insert block⟩, state) := by
  have hcheck : (ask fun cache => checkBlock block cache.2.1.blocks :
      Action (Mapping × Device × Host) Unit).run (mapping, state) = .ok () (mapping, state) :=
    run_ask_of_ok (checkBlock_eq_ok_iff.mpr (h.blocks_eq ▸ hb))
  have hwritable : (ask fun cache => if cache.2.1.readOnly then .error .readOnly else .ok () :
      Action (Mapping × Device × Host) Unit).run (mapping, state) = .ok () (mapping, state) :=
    run_ask_of_ok (if_neg (by rw [hro]; exact Bool.false_ne_true))
  have hflag : (flag block).run (mapping, state) = .ok () (⟨mapping.dirty.insert block⟩, state) :=
    run_bind_of_ok hwritable _
  exact (run_bind_of_ok hcheck _).trans (run_bind_of_ok hflag _)

theorem readBlock_ends (h : Sited layout direct.2) (hm : direct.2.1.storage.mapped = true)
    (block : Nat) :
    Ends (BlockCache.readBlock block) direct fun r s => s = direct ∧
      r = if block < layout.blocks then .ok (bytesAt layout.position (contents direct.2) block)
        else .error (.blockOutOfRange block layout.blocks) := by
  obtain ⟨mapping, state⟩ := direct
  unfold BlockCache.readBlock
  refine (acquire_ends h block).bind ?_ ?_
  · rintro handle s ⟨rfl, hok⟩
    split at hok
    · next hb =>
      cases hok
      have hdata : BlockCache.data ⟨block, block⟩ (mapping, state) = _ := h.mappedBlock_eq hm hb
      simp only [ends_bind, ends_attempt, ends_ask, hdata, ends_ofExcept]
      exact (ends_of_run_eq_ok (run_release_unchanged h hb)).mpr ⟨rfl, (if_pos hb).symm⟩
    · cases hok
  · rintro e s ⟨rfl, he⟩
    split at he
    · cases he
    · next hb =>
      cases he
      exact ⟨rfl, (if_neg hb).symm⟩

theorem writeBlock_ends (h : Sited layout direct.2) (hm : direct.2.1.storage.mapped = true)
    (block : Nat) (bytes : Block) :
    Ends (BlockCache.writeBlock block bytes) direct fun r s =>
      if block < layout.blocks then
        if direct.2.1.readOnly then r = .error .readOnly ∧ s = direct
        else r = .ok () ∧ s.1.dirty = direct.1.dirty.insert block ∧
          Wrote layout block bytes direct.2 s.2
      else r = .error (.blockOutOfRange block layout.blocks) ∧ s = direct := by
  obtain ⟨mapping, state⟩ := direct
  unfold BlockCache.writeBlock
  refine (acquire_ends h block).bind ?_ ?_
  · rintro handle s ⟨rfl, hok⟩
    split at hok
    · next hb =>
      cases hok
      simp only [if_pos hb, ends_bind, ends_attempt, ends_ofExcept]
      refine ends_onSecond.mpr ((h.updateMapped_ends hm hb fun _ => bytes).mono ?_)
      intro r s hs
      -- The release reports what the update has found, and marks the block only if it was changed.
      cases hro : state.1.readOnly with
      | true =>
        rw [hro] at hs
        obtain ⟨rfl, rfl⟩ := hs
        exact (ends_of_run_eq_ok (run_release_unchanged h hb)).mpr ⟨rfl, rfl⟩
      | false =>
        rw [hro] at hs
        obtain ⟨rfl, hw⟩ := hs
        have hro' : s.1.readOnly = false := hw.device_eq ▸ hro
        refine (ends_of_run_eq_ok (run_release_changed (h.wrote hw) hb hro')).mpr ?_
        exact ⟨rfl, rfl, hw⟩
    · cases hok
  · rintro e s ⟨rfl, he⟩
    split at he
    · cases he
    · next hb =>
      cases he
      rw [if_neg hb]
      exact ⟨rfl, rfl⟩

/-- Nothing has to be done to bring a block to the medium. -/
theorem run_syncBlock (h : Sited layout state) (hb : block < layout.blocks) :
    (syncBlock block).run (mapping, state) = .ok () (⟨mapping.dirty.erase block⟩, state) := by
  have hsync : state.1.syncBlock state.2 block = .ok () := by
    unfold Device.syncBlock
    rw [h.mappedOffset_eq hb]
    simp only [bind, Except.bind, Storage.syncRange, h.checkRange_eq hb, Medium.serve_reliable,
      ite_self]
  have hask : (ask fun cache => cache.2.1.syncBlock cache.2.2 block :
      Action (Mapping × Device × Host) Unit).run (mapping, state) = .ok () (mapping, state) :=
    run_ask_of_ok hsync
  exact run_bind_of_ok hask _

theorem run_syncBlocks (h : Sited layout state) (blocks : List Nat)
    (hb : ∀ block ∈ blocks, block < layout.blocks) :
    ∀ mapping : Mapping, ∃ mapping' : Mapping,
      (∀ block ∈ mapping'.dirty, block ∈ mapping.dirty) ∧
        (syncBlocks blocks).run (mapping, state) = .ok () (mapping', state) := by
  induction blocks with
  | nil => exact fun mapping => ⟨mapping, fun _ h => h, rfl⟩
  | cons block rest ih =>
    intro mapping
    obtain ⟨mapping', hle, hrun⟩ := ih (fun b hr => hb b (List.mem_cons_of_mem _ hr))
      ⟨mapping.dirty.erase block⟩
    refine ⟨mapping', fun b hm => (Std.TreeSet.mem_erase.mp (hle b hm)).2, ?_⟩
    rw [syncBlocks, run_bind_of_ok (run_syncBlock h (hb block (List.mem_cons_self ..)))]
    exact hrun

/-- Nothing has to be done for the changed blocks. -/
theorem run_syncDirty (h : Sited layout state)
    (hd : ∀ block ∈ mapping.dirty, block < layout.blocks) :
    ∃ mapping' : Mapping, (∀ block ∈ mapping'.dirty, block ∈ mapping.dirty) ∧
      syncDirty.run (mapping, state) = .ok () (mapping', state) :=
  run_syncBlocks h mapping.dirty.toList (fun block hm => hd block (Std.TreeSet.mem_toList.mp hm))
    mapping

end Mapping

end Diskette
