import Diskette.Proofs.Cache.Carries
import Diskette.Proofs.Cache.Strategy
import Diskette.Proofs.Device.Arranged
import Diskette.Proofs.Pool.Run

/-!
# Pooled caches are transparent

In front of a device that shows an array of blocks, a pooled cache cannot be told from that array.
Whatever buffers were recycled, whatever was committed or synced in between, a block reads as it was
stored last. What was committed or synced is what the device itself reads.

* `Transparent`: what the user of a cache may rely on.
* `transparent_of_run`: it can be relied on after every run of requests.
-/

namespace Diskette

open Diskette.Action

namespace Pool

variable {δ : Type} [Disk δ] {size : Nat} {readOnly : Bool} {Holds : δ → (Nat → Block) → Prop}
  {state : Pool × δ} {shown : Nat → Block} {unmarked : Set Nat}

/-- A block that was given back as changed and committed is on the disk. -/
theorem Shows.committed (hD : ArrayDisk size readOnly Holds)
    (h : Shows size readOnly Holds state shown unmarked) {handle : Handle}
    (hr : (release handle true true).outcome state = .ok ()) :
    (Disk.read handle.block).outcome ((release handle true true).stateAfter state).2 =
      .ok (shown handle.block) := by
  have hends := ends_iff.mp (release_ends hD.toFaithfulDisk h handle true true nofun)
  rw [hr] at hends
  rcases hends with ⟨-, -, hstale⟩ | ⟨-, hs', hok, -⟩
  · cases hstale
  · obtain ⟨hw, hcommit⟩ := hok rfl
    obtain ⟨hbound, hclean⟩ := hcommit rfl
    have hmem : handle.block ∉ unmarkedAfter readOnly true handle.block unmarked := by
      rw [unmarkedAfter, if_pos ⟨rfl, hw rfl⟩]
      exact fun hu => hu.2 rfl
    obtain ⟨base, hbase, heq⟩ := hs'.disk_eq hbound hclean hmem
    obtain ⟨disk, hread⟩ := hD.read_ok hbase (hs'.valid.lt_size hbound)
    rw [outcome_of_run_eq_ok hread, heq]

/-- After a sync with no change left unrecorded everything is on the disk. -/
theorem Shows.synced (hD : ArrayDisk size readOnly Holds)
    (h : Shows size readOnly Holds state shown ∅) (hr : sync.outcome state = .ok ()) {block : Nat}
    (hb : block < size) :
    (Disk.read block).outcome (sync.stateAfter state).2 = .ok (shown block) := by
  obtain ⟨-, hok⟩ := ends_iff.mp (sync_ends hD.toFaithfulDisk h)
  obtain ⟨base, hbase, heq⟩ := hok hr
  obtain ⟨disk, hread⟩ := hD.read_ok hbase hb
  rw [outcome_of_run_eq_ok hread, heq block (Set.notMem_empty block)]

end Pool

namespace Cache

/-- What the device of a cache reads, past the cache. -/
def onDevice (state : Cache × Host) (block : Nat) : Except DiskError Block :=
  (Device.read block).outcome (state.1.device, state.2)

/-- What the user of a cache may rely on. -/
structure Transparent (state : Cache × Host) (ledger : Ledger) : Prop where
  /-- A block reads as it was stored last. -/
  readBlock_eq {block : Nat} {bytes : Block}
    (h : (BlockCache.readBlock block).outcome state = .ok bytes) : bytes = ledger.contents block
  data_eq {handle : Handle} {bytes : Block} (h : BlockCache.data handle state = .ok bytes) :
    bytes = ledger.contents handle.block
  /-- A block given back as changed is on the device once that was committed. -/
  committed {handle : Handle} (h : (BlockCache.release handle true true).outcome state = .ok ()) :
    onDevice ((BlockCache.release handle true true).stateAfter state) handle.block =
      .ok (ledger.contents handle.block)
  /-- A sync brings every change that was recorded to the device. -/
  synced (h : BlockCache.sync.outcome state = .ok ()) (hu : ledger.unflagged = ∅) {block : Nat}
    (hb : block < state.1.device.blocks) :
    onDevice (BlockCache.sync.stateAfter state) block = .ok (ledger.contents block)

private theorem transparent_ofState {size : Nat} {readOnly : Bool}
    {Holds : Device × Host → (Nat → Block) → Prop} (hD : ArrayDisk size readOnly Holds)
    {state : Pool × Device × Host} {ledger : Ledger}
    (h : Pool.Shows size readOnly Holds state ledger.contents ledger.unflagged) :
    Transparent (ofState state) ledger where
  readBlock_eq := by
    intro block bytes hr
    rw [(embeds_ofState.readBlock block).outcome_eq] at hr
    exact (ends_iff.mp (Pool.readBlock_ends hD.toFaithfulDisk h block)).2 bytes hr
  data_eq := fun hd => h.data_eq hd
  committed := by
    intro handle hr
    rw [(embeds_ofState.release handle true true).outcome_eq] at hr
    rw [(embeds_ofState.release handle true true).stateAfter_eq]
    exact h.committed hD hr
  synced := by
    intro hr hu block hb
    rw [embeds_ofState.sync.outcome_eq] at hr
    rw [embeds_ofState.sync.stateAfter_eq]
    rw [hu] at h
    obtain ⟨base, hbase, -⟩ := h.caches
    exact h.synced hD hr ((hD.blocks_eq hbase) ▸ hb)

/-- A pooled cache in front of a device that shows an array is transparent after every run of
requests that records its changes. -/
theorem transparent_of_run {device : Device} {host : Host} (h : Device.Arranged (device, host))
    (size : Nat) :
    ∃ original : Nat → Block,
      (∀ block, block < device.blocks →
        (Device.read block).outcome (device, host) = .ok (original block)) ∧
      ∀ state ledger, Run (ofPool device size, host) original state ledger →
        Transparent state ledger := by
  obtain ⟨original, hholds⟩ := h.exists_holds
  refine ⟨original, fun block hb => ?_, fun state ledger hrun => ?_⟩
  · obtain ⟨after, hread, -⟩ := hholds.run_read hb
    exact outcome_of_run_eq_ok hread
  · have hstart : (ofPool device size, host) =
        ofState (.ofSize (max size minPoolSize), device, host) := rfl
    rw [hstart] at hrun
    obtain ⟨pooled, rfl, hpool⟩ := exists_pool_of_run hrun
    have hD := Device.arrayDisk (device, host)
    exact transparent_ofState hD
      (Pool.shows_of_run hD.toFaithfulDisk ⟨.refl _, hholds⟩ hpool)

/-- A pool of 16 buffers before a new image of 140 KB: a block that was replaced reads as what it was
replaced with. -/
theorem transparent_of_run_created :
    ∃ device created, (Device.create "disk.po" .proDosOrder 280 {}).run Host.empty =
        .ok device created ∧
      let bytes : Block := .tabulate 512 .ofNat
      let written := (Request.writeBlock 5 bytes).perform.stateAfter (ofPool device 16, created)
      (BlockCache.readBlock 5).outcome written = .ok bytes := by
  obtain ⟨device, created, hcreate, hfresh, hblocks⟩ := Device.exists_created
  refine ⟨device, created, hcreate, ?_⟩
  intro bytes
  clear_value bytes
  intro written
  have hin : 5 < device.blocks := hblocks ▸ (by decide)
  have hstore := carriesStore (device, created)
  have hcarries := carries_ofPool hfresh.holds 16
  have hwrite := hstore.write_outcome hcarries 5 bytes
  rw [if_pos hin, if_neg (by rw [hfresh.readOnly_eq]; decide)] at hwrite
  have hrun : (Request.writeBlock 5 bytes).perform.run (ofPool device 16, created) =
      .ok .done written :=
    run_eq_ok_of_outcome (outcome_of_run_eq_ok (run_bind_of_ok (run_eq_ok_of_outcome hwrite) _))
  have hdone : (Request.writeBlock 5 bytes).perform.outcome (ofPool device 16, created) =
      .ok .done := outcome_of_run_eq_ok hrun
  -- The block can be read, and what is read is known from the ledger.
  obtain ⟨found, hread⟩ : ∃ found, (BlockCache.readBlock 5).outcome written = .ok found := by
    have hwritten := ends_iff.mp (hstore.write_ends hcarries 5 bytes)
    rw [hwrite] at hwritten
    have hsame : written = (BlockStore.writeBlock 5 bytes).stateAfter (ofPool device 16, created) :=
      stateAfter_bind_pure fun _ => Reply.done
    rw [hsame]
    exact ⟨_, (hstore.read_outcome hwritten 5).trans (if_pos hin)⟩
  obtain ⟨original, -, hreached⟩ := transparent_of_run (.created hcreate) 16
  have hledger : (Ledger.mk original ∅).after (ofPool device 16, created) (.writeBlock 5 bytes)
      ((Request.writeBlock 5 bytes).perform.outcome (ofPool device 16, created)) =
        (Ledger.mk original ∅).replace 5 bytes := by
    rw [hdone]
    rfl
  have htransparent : Transparent written ((Ledger.mk original ∅).replace 5 bytes) := by
    rw [← hledger]
    refine hreached _ _ (.step .start (.writeBlock 5 bytes) fun block hu => ?_)
    rw [hledger] at hu
    exact absurd hu.1 (Set.notMem_empty _)
  have hfound : found = Function.update original 5 bytes 5 := htransparent.readBlock_eq hread
  rw [hread, hfound, Function.update_self]

end Cache

end Diskette
