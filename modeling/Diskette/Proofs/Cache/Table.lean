import Diskette.Proofs.Cache.Carries
import Diskette.Proofs.Device.Beside
import Diskette.Proofs.Tasks

/-!
# Caches as tables

What the users of a cache have before them is a table: so many blocks, which can be read and, unless
they are protected, replaced. A cache of either strategy answers to every task as the table would
that it shows, before a protected device too, and nothing that becomes of other files changes that.

* `Table`: numbered blocks, the plainest cache.
* `Cache.Bears`: a cache that shows an array and can be synced.
* `Cache.Bears.perform_ends`: it does every task as the table does.
* `Cache.Bears.elsewhere`: other files do not matter.
* `Cache.Bears.run_closeCache`: closing it succeeds and leaves the array in the file.
* `Cache.Carries.bears`: before a device that can be written, every cache that shows an array is one.
-/

namespace Diskette

open Diskette.Action

/-! ## Tables -/

/-- Numbered blocks, and whether they are protected. -/
structure Table where
  size : Nat
  readOnly : Bool
  blocks : Nat → Block

namespace Table

/-- Changes a block, unless the table is protected. -/
def update (handle : Handle) (change : Block → Block) : Action Table Unit := do
  Action.ask fun table => if table.readOnly then .error .readOnly else .ok ()
  modify fun table =>
    { table with
      blocks := Function.update table.blocks handle.block (change (table.blocks handle.block)) }

/-- A table has nothing between its users and its blocks: no block is kept back. -/
instance : BlockCache Table where
  blocks table := table.size
  readOnly table := table.readOnly
  acquire block := Action.ask fun table => (checkBlock block table.size).map fun _ => ⟨block, 0⟩
  data handle table := .ok (table.blocks handle.block)
  update := update
  release _ _ _ := pure ()
  markDirty _ := pure ()
  sync := pure ()

variable {table : Table}

theorem readBlock_ends (table : Table) (block : Nat) :
    Ends (BlockCache.readBlock block) table fun r after => after = table ∧
      r = if block < table.size then .ok (table.blocks block)
        else .error (.blockOutOfRange block table.size) := by
  unfold BlockCache.readBlock
  refine ends_bind.mpr (ends_ask.mpr ?_)
  by_cases hb : block < table.size
  · rw [checkBlock_eq_ok_iff.mpr hb, if_pos hb]
    exact ⟨rfl, rfl⟩
  · rw [if_neg hb, show checkBlock block table.size = .error (.blockOutOfRange block table.size) from
      if_neg hb]
    exact ⟨rfl, rfl⟩

theorem writeBlock_ends (table : Table) (block : Nat) (bytes : Block) :
    Ends (BlockCache.writeBlock block bytes) table fun r after =>
      if block < table.size then
        if table.readOnly then r = .error .readOnly ∧ after = table
        else r = .ok () ∧ after = { table with blocks := Function.update table.blocks block bytes }
      else r = .error (.blockOutOfRange block table.size) ∧ after = table := by
  obtain ⟨size, readOnly, blocks⟩ := table
  unfold BlockCache.writeBlock
  refine ends_bind.mpr (ends_ask.mpr ?_)
  by_cases hb : block < size
  · rw [checkBlock_eq_ok_iff.mpr hb]
    simp only [if_pos hb]
    cases readOnly with
    | true => exact ⟨rfl, rfl⟩
    | false => exact ⟨rfl, rfl⟩
  · rw [show checkBlock block size = .error (.blockOutOfRange block size) from if_neg hb]
    simp only [if_neg hb]
    exact ⟨rfl, trivial⟩

/-- A table is a store that fails only where it has to. -/
theorem exactStore (n : Nat) (readOnly : Bool) :
    ExactStore n readOnly fun (table : Table) c => table = ⟨n, readOnly, c⟩ where
  read_ends {table c} h block := by
    apply (readBlock_ends table block).mono
    rintro r after ⟨rfl, hr⟩
    refine ⟨h, fun data hok => ?_⟩
    rw [hok, h] at hr
    dsimp only at hr
    split at hr
    · exact Except.ok.inj hr
    · cases hr
  write_ends {table c} h block data := by
    subst h
    apply (writeBlock_ends ⟨n, readOnly, c⟩ block data).mono
    intro r after hafter
    dsimp only at hafter
    split at hafter
    · split at hafter
      · obtain ⟨rfl, rfl⟩ := hafter
        rfl
      · obtain ⟨rfl, rfl⟩ := hafter
        rfl
    · obtain ⟨rfl, rfl⟩ := hafter
      rfl
  read_outcome {table c} h block := by
    subst h
    exact (ends_iff.mp (readBlock_ends ⟨n, readOnly, c⟩ block)).2
  write_outcome {table c} h block data := by
    subst h
    have hends := ends_iff.mp (writeBlock_ends ⟨n, readOnly, c⟩ block data)
    -- The range is checked first and the protection after it, as by the caches.
    dsimp only at hends
    split at hends
    · split at hends
      · next hb hro =>
        rw [if_pos hb, if_pos hro]
        exact hends.1
      · next hb hro =>
        rw [if_pos hb, if_neg hro]
        exact hends.1
    · next hb =>
      rw [if_neg hb]
      exact hends.1

end Table

variable {start : Device × Host} {c : Nat → Block}

/-! ## Mappings -/

namespace Mapping

open Device (Calm)

/-- The device behind the mapping can be flushed. -/
structure Bears (start : Device × Host) (state : Mapping × Device × Host) (c : Nat → Block) : Prop
    extends Serves start state c where
  unmodified (h : start.1.readOnly = true) : state.2.1.modified = false

variable {state : Mapping × Device × Host}

theorem Bears.calm (h : Bears start state c) : Calm start state.2 c := ⟨h.reached, h.unmodified⟩

/-- It is a store still. -/
theorem bearsStore (start : Device × Host) :
    ExactStore start.1.blocks start.1.readOnly (Bears start) where
  read_ends {state c} h block := by
    apply (((servesStore start).read_ends h.toServes block).and (h.readBlock_ends block)).mono
    rintro r _ ⟨⟨hserves, hr⟩, rfl, -⟩
    exact ⟨⟨hserves, h.unmodified⟩, hr⟩
  write_ends {state c} h block data := by
    apply (((servesStore start).write_ends h.toServes block data).and
      (h.writeBlock_ends block data)).mono
    rintro r after ⟨hafter, hwrote⟩
    have hunmodified (hro : start.1.readOnly = true) : after.2.1.modified = false := by
      rw [if_pos hro] at hwrote
      split at hwrote
      · obtain ⟨-, rfl⟩ := hwrote
        exact h.unmodified hro
      · obtain ⟨-, rfl⟩ := hwrote
        exact h.unmodified hro
    cases r with
    | ok _ => exact ⟨hafter, hunmodified⟩
    | error e => exact ⟨hafter, hunmodified⟩
  read_outcome h block := (servesStore start).read_outcome h.toServes block
  write_outcome h block data := (servesStore start).write_outcome h.toServes block data

/-- A sync succeeds, before a protected device too. -/
theorem Bears.run_sync (h : Bears start state c) :
    ∃ after, sync.run state = .ok () after ∧ Bears start after c := by
  obtain ⟨layout, hs⟩ := h.sited
  obtain ⟨mapping, state⟩ := state
  obtain ⟨mapping', hdirty, hsynced⟩ := run_syncDirty (hs.reached h.reached)
    fun block hmem => hs.blocks_eq ▸ h.dirty_lt hmem
  obtain ⟨after, hflushed, hcalm⟩ := h.calm.run_flush
  exact ⟨_, (run_bind_of_ok hsynced _).trans (run_onSecond_of_ok hflushed), ⟨h.sited,
    h.storage_mapped, hcalm.reached, fun hmem => h.dirty_lt (hdirty _ hmem)⟩, hcalm.unmodified⟩

/-- What becomes of other files does not matter. -/
theorem Bears.elsewhere {mapping : Mapping} {device : Device} {host host' : Host}
    (h : Bears start (mapping, device, host) c)
    (hsame : host'.find? device.storage.file = host.find? device.storage.file) :
    Bears (device, host') (mapping, device, host') c := by
  obtain ⟨layout, hs⟩ := h.sited
  have hcalm := h.calm.elsewhere hsame
  have hsited := hs.reached h.reached
  refine ⟨⟨⟨layout, hsited.layout_eq, hsited.fits, hcalm.reached.2.backed, hsited.writable⟩,
    h.mapped, hcalm.reached, fun hmem => ?_⟩, hcalm.unmodified⟩
  show _ < device.blocks
  rw [h.reached.1.blocks_eq]
  exact h.dirty_lt hmem

end Mapping

/-! ## Caches -/

namespace Cache

open Device (Calm)

/-- The cache shows the array, and its device, which was reached from `start`, can be flushed. -/
def Bears (start : Device × Host) (state : Cache × Host) (c : Nat → Block) : Prop :=
  (∃ pooled, ofState pooled = state ∧
    Pool.Serves start.1.blocks start.1.readOnly (Calm start) pooled c) ∨
  ∃ mapped, ofMapped mapped = state ∧ Mapping.Bears start mapped c

/-- A cache of either strategy behaves as the array that it shows. -/
theorem bearsStore (start : Device × Host) :
    ExactStore start.1.blocks start.1.readOnly (Bears start) :=
  ((Pool.servesStore (Device.calmDisk start)).placed embeds_ofState.readBlock
    embeds_ofState.writeBlock).either
  ((Mapping.bearsStore start).placed embeds_ofMapped.readBlock embeds_ofMapped.writeBlock)

variable {device : Device} {host host' : Host} {cache : Cache} {state : Cache × Host}

/-- The device was reached from where it was. -/
theorem Bears.evolves (h : Bears start state c) : Device.Evolves start (state.1.device, state.2) := by
  rcases h with ⟨⟨pool, device, host⟩, rfl, hserves⟩ | ⟨⟨mapping, device, host⟩, rfl, hbears⟩
  · obtain ⟨base, hbase, -⟩ := hserves.caches
    exact hbase.reached.1
  · exact hbears.reached.1

/-- Whichever strategy suits the device, the cache shows what the device does. -/
theorem exists_bears (h : Calm (device, host) (device, host) c)
    (hle : device.container.headerSize ≤ device.container.layout.base) (options : DeviceOptions) :
    ∃ cache, (Session.cacheFor device options).run host = .ok cache host ∧ cache.device = device ∧
      Bears (device, host) (cache, host) c := by
  unfold Session.cacheFor
  split
  · next hsuits =>
    refine ⟨_, run_ofMapping_of_supportsMapping host hsuits.2, rfl, ?_⟩
    obtain ⟨hmapped, hoffset⟩ := Bool.and_eq_true_iff.mp hsuits.2
    obtain ⟨offset, hoffset⟩ := Option.isSome_iff_exists.mp hoffset
    obtain ⟨layout, hl, -⟩ := Layout.blockOffset?_eq_some_iff.mp hoffset
    exact .inr ⟨(.clean, device, host), rfl,
      Mapping.serves_clean (h.reached.2.sited hl hle) hmapped h.reached.2, h.unmodified⟩
  · exact ⟨_, rfl, rfl,
      .inl ⟨(.ofSize (max options.poolSize minPoolSize), device, host), rfl, Pool.serves_ofSize h _⟩⟩

/-- What becomes of other files does not matter. -/
theorem Bears.elsewhere (h : Bears start (cache, host) c)
    (hsame : host'.find? cache.device.storage.file = host.find? cache.device.storage.file) :
    Bears (cache.device, host') (cache, host') c := by
  have hevolves := h.evolves
  rcases h with ⟨⟨pool, device, host⟩, heq, hserves⟩ | ⟨⟨mapping, device, host⟩, heq, hbears⟩
  · cases heq
    refine .inl ⟨(pool, device, host'), rfl, ?_⟩
    show Pool.Serves device.blocks device.readOnly _ _ _
    rw [hevolves.blocks_eq, hevolves.readOnly_eq]
    exact hserves.onDisk fun hbase => hbase.elsewhere hsame
  · cases heq
    exact .inr ⟨(mapping, device, host'), rfl, hbears.elsewhere hsame⟩

/-! ### Tasks -/

/-- A sync succeeds and leaves the array to the device. -/
theorem Bears.run_sync (h : Bears start state c) :
    ∃ cache host, BlockCache.sync.run state = .ok () (cache, host) ∧
      Bears start (cache, host) c ∧ Calm start (cache.device, host) c := by
  rcases h with ⟨pooled, rfl, hserves⟩ | ⟨mapped, rfl, hbears⟩
  · obtain ⟨⟨pool, device, host⟩, hrun, hserves', hcalm⟩ :=
      hserves.run_sync (Device.calmDisk start) fun {disk c} hdisk => by
        obtain ⟨after, hflushed, -⟩ := hdisk.run_flush
        exact ⟨after, hflushed⟩
    refine ⟨⟨.pooled pool, device⟩, host, ?_, .inl ⟨_, rfl, hserves'⟩, hcalm⟩
    have hsync : BlockCache.sync.run pooled = .ok () (pool, device, host) := hrun
    rw [embeds_ofState.sync, hsync]
    rfl
  · obtain ⟨⟨mapping, device, host⟩, hrun, hbears'⟩ := hbears.run_sync
    refine ⟨⟨.mapped mapping, device⟩, host, ?_, .inr ⟨_, rfl, hbears'⟩, hbears'.calm⟩
    have hsync : BlockCache.sync.run mapped = .ok () (mapping, device, host) := hrun
    rw [embeds_ofMapped.sync, hsync]
    rfl

/-- The cache shows the table. -/
def Tabled (start : Device × Host) (state : Cache × Host) (table : Table) : Prop :=
  ∃ c, Bears start state c ∧ table = ⟨start.1.blocks, start.1.readOnly, c⟩

theorem parallel_sync (start : Device × Host) :
    Parallel (Tabled start) BlockCache.sync BlockCache.sync := by
  rintro state _ ⟨c, h, rfl⟩
  obtain ⟨cache, host, hrun, hbears, -⟩ := h.run_sync
  have htable : BlockCache.sync.run (⟨start.1.blocks, start.1.readOnly, c⟩ : Table) = .ok () _ := rfl
  unfold Agree
  rw [hrun, htable]
  exact ⟨rfl, c, hbears, rfl⟩

/-- A task is done as with the table. -/
theorem Bears.perform_ends (h : Bears start state c) (task : Task) :
    let table : Table := ⟨start.1.blocks, start.1.readOnly, c⟩
    task.perform.outcome state = task.perform.outcome table ∧
      Tabled start (task.perform.stateAfter state) (task.perform.stateAfter table) := by
  have hstores : StoresAgree (Tabled start) :=
    (bearsStore start).storesAgree (Table.exactStore start.1.blocks start.1.readOnly)
  obtain ⟨houtcome, hafter⟩ := agree_iff.mp
    (task.parallel_perform hstores (parallel_sync start) ⟨c, h, rfl⟩)
  exact ⟨houtcome.symm, hafter⟩

/-! ### The end -/

theorem Bears.warnInUse (h : Bears start (cache, host) c) :
    Bears start (cache, warnInUse cache.strategy host) c := by
  rcases h with ⟨⟨pool, device, host⟩, heq, hserves⟩ | ⟨⟨mapping, device, host⟩, heq, hbears⟩
  · cases heq
    refine .inl ⟨(pool, device, warnPinned pool host), rfl, ?_⟩
    unfold warnPinned
    split
    · exact hserves
    · exact hserves.onDisk fun hbase => hbase.warn _
  · cases heq
    exact .inr ⟨(mapping, device, host), rfl, hbears⟩

/-- A cache that is disposed of leaves the array in the file of its device. -/
theorem Bears.dispose_eq (h : Bears start (cache, host) c) :
    ∃ final, Calm start final c ∧ cache.dispose host = final.2 := by
  obtain ⟨cache', host', hrun, -, hcalm⟩ := h.warnInUse.run_sync
  obtain ⟨final, hfinal, hdispose⟩ := hcalm.dispose_eq
  refine ⟨final, hfinal, ?_⟩
  rw [← hdispose]
  unfold EStateM.run at hrun
  unfold dispose
  simp only [hrun]

/-- So does one that is closed, and closing it succeeds. -/
theorem Bears.run_closeCache (h : Bears start (cache, host) c) :
    ∃ final, Calm start final c ∧ (Session.closeCache cache).run host = .ok () final.2 := by
  obtain ⟨cache', host', hrun, hbears, -⟩ := h.run_sync
  obtain ⟨final, hfinal, hdispose⟩ := hbears.dispose_eq
  refine ⟨final, hfinal, ?_⟩
  rw [← hdispose]
  unfold EStateM.run at hrun ⊢
  unfold Session.closeCache
  simp only [hrun]

/-- Before a device that can be written, nothing else is asked of a cache. -/
theorem Carries.bears (h : Carries start state c) (hw : start.1.readOnly = false) :
    Bears start state c := by
  have hnever {modified : Bool} (hro : start.1.readOnly = true) : modified = false := by
    rw [hw] at hro
    cases hro
  rcases h with ⟨pooled, heq, hserves⟩ | ⟨mapped, heq, hserves⟩
  · exact .inl ⟨pooled, heq, hserves.onDisk fun hreached => ⟨hreached, hnever⟩⟩
  · exact .inr ⟨mapped, heq, hserves, hnever⟩

end Cache

end Diskette
