import Diskette.Proofs.Cache.Mapped
import Diskette.Proofs.Cache.Strategy
import Diskette.Proofs.Device.Opened
import Diskette.Proofs.ExactStore
import Diskette.Proofs.Pool.Serves
import Diskette.Session

/-!
# Caches as stores

A cache of either strategy before a device that shows an array is a store that behaves as that
array, and fails only where it has to.

* `Mapping.servesStore`: a mapping is a store.
* `Carries`: a cache of either strategy shows an array.
* `carriesStore`: such a cache is a store.
* `run_cacheFor`: the cache that a device gets shows what the device does.
-/

namespace Diskette

open Diskette.Action

/-! ## Stores in other stores -/

namespace ExactStore

variable {σ τ : Type} [BlockStore σ] [BlockStore τ] {n : Nat} {readOnly : Bool}
  {Holds Holds' : σ → (Nat → Block) → Prop} {place : σ → τ}

/-- What does as a store does is a store. -/
theorem placed (hS : ExactStore n readOnly Holds)
    (hread : ∀ block, Mirrors place (BlockStore.readBlock block) (BlockStore.readBlock block))
    (hwrite : ∀ block data,
      Mirrors place (BlockStore.writeBlock block data) (BlockStore.writeBlock block data)) :
    ExactStore n readOnly fun t c => ∃ s, place s = t ∧ Holds s c where
  read_ends := by
    rintro _ c ⟨s, rfl, h⟩ block
    refine (hread block).ends_iff.mpr ((hS.read_ends h block).mono ?_)
    exact fun r s' hr => ⟨⟨s', rfl, hr.1⟩, hr.2⟩
  write_ends := by
    rintro _ c ⟨s, rfl, h⟩ block data
    refine (hwrite block data).ends_iff.mpr ((hS.write_ends h block data).mono ?_)
    rintro (e | ⟨⟩) s' hr
    · exact ⟨s', rfl, hr⟩
    · exact ⟨s', rfl, hr⟩
  read_outcome := by
    rintro _ c ⟨s, rfl, h⟩ block
    exact ((hread block).outcome_eq s).trans (hS.read_outcome h block)
  write_outcome := by
    rintro _ c ⟨s, rfl, h⟩ block data
    exact ((hwrite block data).outcome_eq s).trans (hS.write_outcome h block data)

/-- What is a store in either of two ways. -/
theorem either (hS : ExactStore n readOnly Holds) (hS' : ExactStore n readOnly Holds') :
    ExactStore n readOnly fun s c => Holds s c ∨ Holds' s c where
  read_ends := by
    rintro s c (h | h) block
    · exact (hS.read_ends h block).mono fun r s' hr => ⟨.inl hr.1, hr.2⟩
    · exact (hS'.read_ends h block).mono fun r s' hr => ⟨.inr hr.1, hr.2⟩
  write_ends := by
    rintro s c (h | h) block data
    · refine (hS.write_ends h block data).mono ?_
      rintro (e | ⟨⟩) s' hr
      · exact .inl hr
      · exact .inl hr
    · refine (hS'.write_ends h block data).mono ?_
      rintro (e | ⟨⟩) s' hr
      · exact .inr hr
      · exact .inr hr
  read_outcome h block :=
    h.elim (fun h => hS.read_outcome h block) fun h => hS'.read_outcome h block
  write_outcome h block data :=
    h.elim (fun h => hS.write_outcome h block data) fun h => hS'.write_outcome h block data

end ExactStore

variable {start : Device × Host} {c : Nat → Block}

/-! ## Mappings -/

namespace Mapping

open Device (Reached Sited)

/-- The device behind the mapping was reached from `start`, which can be mapped, and shows the
array. -/
structure Serves (start : Device × Host) (state : Mapping × Device × Host) (c : Nat → Block) :
    Prop where
  sited : ∃ layout, Sited layout start
  storage_mapped : start.1.storage.mapped = true
  reached : Reached start state.2 c
  dirty_lt {block : Nat} (h : block ∈ state.1.dirty) : block < start.1.blocks

variable {state : Mapping × Device × Host}

theorem serves_clean {layout : Layout.Sequential} (hs : Sited layout start)
    (hm : start.1.storage.mapped = true) (h : Device.Holds start c) : Serves start (.clean, start) c :=
  ⟨⟨layout, hs⟩, hm, ⟨.refl _, h⟩, fun hmem => absurd hmem Std.TreeSet.not_mem_emptyc⟩

theorem Serves.mapped (h : Serves start state c) : state.2.1.storage.mapped = true := by
  rw [h.reached.1.storage_eq, h.storage_mapped]

theorem Serves.readBlock_ends (h : Serves start state c) (block : Nat) :
    Ends (BlockCache.readBlock block) state fun r s => s = state ∧
      r = if block < start.1.blocks then .ok (c block)
        else .error (.blockOutOfRange block start.1.blocks) := by
  obtain ⟨layout, hs⟩ := h.sited
  have hsited := hs.reached h.reached
  refine (Mapping.readBlock_ends hsited h.mapped block).mono ?_
  rintro r s ⟨rfl, rfl⟩
  refine ⟨rfl, ?_⟩
  rw [hs.blocks_eq]
  split
  · next hb => rw [hsited.bytesAt_eq h.reached.2 hb]
  · rfl

theorem Serves.writeBlock_ends (h : Serves start state c) (block : Nat) (data : Block) :
    Ends (BlockCache.writeBlock block data) state fun r s =>
      if block < start.1.blocks then
        if start.1.readOnly then r = .error .readOnly ∧ s = state
        else r = .ok () ∧ Serves start s (Function.update c block data)
      else r = .error (.blockOutOfRange block start.1.blocks) ∧ s = state := by
  obtain ⟨layout, hs⟩ := h.sited
  have hsited := hs.reached h.reached
  refine (Mapping.writeBlock_ends hsited h.mapped block data).mono ?_
  intro r s hr
  rw [h.reached.1.readOnly_eq, ← hs.blocks_eq] at hr
  by_cases hb : block < start.1.blocks
  · rw [if_pos hb] at hr ⊢
    cases hw : start.1.readOnly with
    | true =>
      rw [hw] at hr
      exact hr
    | false =>
      rw [hw] at hr
      obtain ⟨rfl, hdirty, hwrote⟩ := hr
      refine ⟨rfl, h.sited, h.storage_mapped, ⟨h.reached.1.trans (hsited.evolves hwrote),
        hsited.holds_wrote h.reached.2 hwrote⟩, fun {other} hmem => ?_⟩
      rw [hdirty, Std.TreeSet.mem_insert] at hmem
      rcases hmem with he | hmem
      · rwa [← Std.LawfulEqCmp.eq_of_compare he]
      · exact h.dirty_lt hmem
  · rw [if_neg hb] at hr ⊢
    exact hr

/-- A mapping behaves as the array that the device shows. -/
theorem servesStore (start : Device × Host) :
    ExactStore start.1.blocks start.1.readOnly (Serves start) where
  read_ends h block := by
    refine (h.readBlock_ends block).mono ?_
    rintro r s ⟨rfl, rfl⟩
    refine ⟨h, fun data hr => ?_⟩
    split at hr
    · exact (Except.ok.inj hr).symm
    · cases hr
  write_ends h block data := by
    refine (h.writeBlock_ends block data).mono ?_
    intro r s hr
    split at hr
    · split at hr
      · obtain ⟨rfl, rfl⟩ := hr
        exact h
      · obtain ⟨rfl, hserves⟩ := hr
        exact hserves
    · obtain ⟨rfl, rfl⟩ := hr
      exact h
  read_outcome h block := (ends_iff.mp (h.readBlock_ends block)).2
  write_outcome h block data := by
    have hends := ends_iff.mp (h.writeBlock_ends block data)
    by_cases hb : block < start.1.blocks
    · rw [if_pos hb] at hends ⊢
      cases hw : start.1.readOnly with
      | true =>
        rw [hw] at hends
        exact hends.1
      | false =>
        rw [hw] at hends
        exact hends.1
    · rw [if_neg hb] at hends ⊢
      exact hends.1

end Mapping

/-! ## Caches -/

namespace Cache

open Device (Reached Sited)

/-- The cache shows the array, and its device was reached from `start`. -/
def Carries (start : Device × Host) (state : Cache × Host) (c : Nat → Block) : Prop :=
  (∃ pooled, ofState pooled = state ∧
    Pool.Serves start.1.blocks start.1.readOnly (Reached start) pooled c) ∨
  ∃ mapped, ofMapped mapped = state ∧ Mapping.Serves start mapped c

/-- A cache of either strategy behaves as the array that it shows. -/
theorem carriesStore (start : Device × Host) :
    ExactStore start.1.blocks start.1.readOnly (Carries start) :=
  ((Pool.servesStore (Device.arrayDisk start)).placed embeds_ofState.readBlock
    embeds_ofState.writeBlock).either
  ((Mapping.servesStore start).placed embeds_ofMapped.readBlock embeds_ofMapped.writeBlock)

variable {device : Device} {host : Host} {cache : Cache} {state : Cache × Host}

theorem carries_ofPool (h : Device.Holds (device, host) c) (size : Nat) :
    Carries (device, host) (ofPool device size, host) c :=
  .inl ⟨(.ofSize (max size minPoolSize), device, host), rfl, Pool.serves_ofSize ⟨.refl _, h⟩ _⟩

/-- A device that can be mapped has its blocks one after the other. -/
theorem carries_mapped (h : Device.Holds (device, host) c)
    (hle : device.container.headerSize ≤ device.container.layout.base)
    (hm : device.supportsMapping = true) :
    Carries (device, host) (⟨.mapped .clean, device⟩, host) c := by
  obtain ⟨hmapped, hoffset⟩ := Bool.and_eq_true_iff.mp hm
  obtain ⟨offset, hoffset⟩ := Option.isSome_iff_exists.mp hoffset
  obtain ⟨layout, hl, -⟩ := Layout.blockOffset?_eq_some_iff.mp hoffset
  exact .inr ⟨(.clean, device, host), rfl, Mapping.serves_clean (h.sited hl hle) hmapped h⟩

/-- Whichever strategy suits the device, the cache shows what the device does. -/
theorem run_cacheFor (h : Device.Holds (device, host) c)
    (hle : device.container.headerSize ≤ device.container.layout.base) (options : DeviceOptions) :
    ∃ cache, (Session.cacheFor device options).run host = .ok cache host ∧
      Carries (device, host) (cache, host) c := by
  unfold Session.cacheFor
  split
  · next hsuits =>
    exact ⟨_, run_ofMapping_of_supportsMapping host hsuits.2, carries_mapped h hle hsuits.2⟩
  · exact ⟨_, rfl, carries_ofPool h options.poolSize⟩

end Cache

end Diskette
