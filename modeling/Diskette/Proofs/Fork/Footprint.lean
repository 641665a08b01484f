import Diskette.Proofs.ExactStore
import Diskette.Proofs.Fork.Files
import Diskette.Proofs.Fork.Pieces
import Diskette.Proofs.Fork.Steps

/-!
# How many blocks a file takes

A write stores what there is to store of a fork and nothing else, so what it takes from the bitmap can
be told from the data. The counts in the descriptors, those of both forks of an extended file among
them, are made from one running total.

* `Takes`, `takes_writeSubtree`: how many blocks a write takes that comes to a value.
* `of_writePlain_eq_ok`, `exists_wroteBoth`: how a fork was written, and how an extended file was.
* `footprint_of_write`: what a write returns.
-/

namespace Diskette

open Diskette.Action

variable {data : ByteArray} {count k level blocks : Nat}

namespace Draft

/-! ## Holes -/

theorem dataBlock_eq_zeroBlock_iff (data : ByteArray) (n : Nat) :
    dataBlock data n = zeroBlock ↔ ¬ HasData data 512 n := by
  have hbyte (i : Nat) (hi : i < 512) : (dataBlock data n).byte i = byteAt data (n * 512 + i) := by
    rw [dataBlock, Bytes.byte_ofSlice, if_pos hi]
  constructor
  · rintro h ⟨i, hi, hne⟩
    rw [← hbyte i hi, h, zeroBlock, Bytes.byte_zero] at hne
    exact hne rfl
  · intro h
    refine Bytes.ext_byte fun i hi => ?_
    rw [hbyte i hi, zeroBlock, Bytes.byte_zero]
    by_contra hne
    exact h ⟨i, hi, hne⟩

theorem isHole_iff {n : Nat} :
    isHole data count n = true ↔ ∀ j < count, ¬ HasData data 512 (n + j) := by
  constructor
  · intro h j hj
    exact (dataBlock_eq_zeroBlock_iff data _).mp (dataBlock_of_isHole h hj)
  · intro h
    induction count generalizing n with
    | zero => rfl
    | succ count ih =>
      have hfirst := (dataBlock_eq_zeroBlock_iff data n).mpr (h 0 (Nat.succ_pos count))
      have hrest : isHole data count (n + 1) = true := ih fun j hj => by
        rw [Nat.add_assoc, Nat.add_comm 1]
        exact h (j + 1) (Nat.succ_lt_succ hj)
      simp [isHole, hfirst, hrest]

/-- What makes a subtree be left out: it is not the first one, and there is no data under it. Past its
first `count` blocks there may be none at all. -/
theorem leftOut_iff {span : Nat} (hspan : 0 < span) (hcount : count ≤ span)
    (hend : ∀ j, count ≤ j → j < span → ¬ HasData data 512 (k * span + j)) :
    (k * span ≠ 0 ∧ isHole data count (k * span) = true) ↔
      ¬ (k = 0 ∨ HasData data (span * 512) k) := by
  have hzero : k * span ≠ 0 ↔ k ≠ 0 := by
    rw [Nat.mul_ne_zero_iff]
    exact and_iff_left hspan.ne'
  rw [hzero, isHole_iff, hasData_mul_iff, not_or, not_exists]
  refine and_congr_right fun _ => ⟨fun h j hj => ?_, fun h j hj hdata => h j ⟨by omega, hdata⟩⟩
  by_cases hlt : j < count
  · exact h j hlt hj.2
  · exact hend j (Nat.not_lt.mp hlt) hj.1 hj.2

/-! ## Writing -/

variable {κ : Type} [BlockStore κ] {α β : Type}

omit [BlockStore κ] in
/-- If the action comes to a value it has taken this many blocks. -/
def Takes (count : Nat) (act : Action (Draft κ) α) : Prop :=
  ∀ ⦃draft draft' : Draft κ⦄ ⦃a : α⦄, act.run draft = .ok a draft' →
    draft'.taken.length = draft.taken.length + count

omit [BlockStore κ] in
theorem takes_pure (a : α) : Takes (κ := κ) 0 (pure a) := by
  intro draft draft' b h
  cases h
  rfl

omit [BlockStore κ] in
theorem takes_ofExcept (r : Except DiskError α) : Takes (κ := κ) 0 (Action.ofExcept r) := by
  intro draft draft' a h
  cases r <;> cases h
  rfl

omit [BlockStore κ] in
theorem Takes.bind {act : Action (Draft κ) α} {f : α → Action (Draft κ) β} {m n : Nat}
    (h : Takes m act) (hf : ∀ a, Takes n (f a)) : Takes (m + n) (act >>= f) := by
  intro draft draft' b hrun
  obtain ⟨a, middle, hact, hrest⟩ := exists_of_run_bind hrun
  rw [hf a hrest, h hact, Nat.add_assoc]

omit [BlockStore κ] in
theorem takes_takeBlock : Takes (κ := κ) 1 takeBlock := by
  intro draft draft' block h
  rcases takeBlock_cases draft with ⟨found, after, -, hrun⟩ | ⟨-, hrun⟩ <;> rw [hrun] at h <;> cases h
  rfl

theorem takes_putBlock (block : Nat) (bytes : Block) : Takes (κ := κ) 0 (putBlock block bytes) := by
  intro draft draft' a h
  have hafter : (putBlock block bytes).stateAfter draft = draft' := by rw [stateAfter, h]
  rw [← hafter, stateAfter_putBlock]
  rfl

omit [BlockStore κ] in
private theorem takes_writeChildren {child : Nat → Action (Draft κ) Nat}
    (hchild : ∀ k, Takes (subtreeBlocks data level k 1) (child (k * spanOf level))) (count : Nat) :
    ∀ k pointers, Takes (subtreeBlocks data level k count)
      (writeChildren child (spanOf level) count (k * spanOf level) pointers) := by
  induction count with
  | zero =>
    intro k pointers
    rw [subtreeBlocks_eq_zero fun _ _ _ => by omega]
    exact takes_pure pointers
  | succ count ih =>
    intro k pointers
    have hsplit : subtreeBlocks data level k (count + 1) =
        subtreeBlocks data level k 1 + (0 + subtreeBlocks data level (k + 1) count) := by
      rw [Nat.add_comm count, subtreeBlocks_add, Nat.zero_add]
    rw [hsplit, writeChildren, ← Nat.succ_mul]
    exact (hchild k).bind fun root => (takes_ofExcept _).bind fun _ => ih (k + 1) _

/-- What the children of a node take, of which only so many are written. -/
private theorem subtreeBlocks_children {covered written : Nat} (hpos : 0 < blocks)
    (hsize : data.size ≤ blocks * 512)
    (hcovered : covered = min (spanOf (level + 1)) (blocks - k * spanOf (level + 1)))
    (hwritten : written = (covered + (spanOf level - 1)) / spanOf level) :
    subtreeBlocks data level (256 * k) 256 = subtreeBlocks data level (256 * k) written := by
  have hspan : spanOf (level + 1) = 256 * spanOf level := rfl
  obtain ⟨hroom, hreach⟩ := children_count (spanOf_pos level)
    (show covered ≤ 256 * spanOf level from hcovered ▸ Nat.min_le_left ..)
  rw [← hwritten] at hroom hreach
  obtain ⟨rest, hrest⟩ := Nat.exists_eq_add_of_le hroom
  have hsplit : subtreeBlocks data level (256 * k) 256 =
      subtreeBlocks data level (256 * k) written +
        subtreeBlocks data level (256 * k + written) rest := by
    rw [← subtreeBlocks_add, ← hrest]
  rw [hsplit, Nat.add_eq_left]
  refine subtreeBlocks_eq_zero fun child hle hlt => ?_
  obtain ⟨i, rfl⟩ := Nat.exists_eq_add_of_le (show 256 * k ≤ child by omega)
  -- The first child that is not written starts past the last block.
  have hpast : blocks ≤ (256 * k + i) * spanOf level := by
    have hi : ¬ i * spanOf level < covered := fun hlt => by
      have := hreach _ hlt
      rw [Nat.mul_div_cancel _ (spanOf_pos level)] at this
      omega
    have hlast : i * spanOf level < 256 * spanOf level :=
      Nat.mul_lt_mul_of_pos_right (by omega) (spanOf_pos level)
    have hplace : (256 * k + i) * spanOf level = k * spanOf (level + 1) + i * spanOf level := by
      rw [hspan, Nat.add_mul, Nat.mul_comm 256 k, Nat.mul_assoc]
    omega
  refine ⟨fun hzero => ?_, fun hdata => ?_⟩
  · rw [hzero, Nat.zero_mul] at hpast
    omega
  · obtain ⟨j, -, hdata⟩ := hasData_mul_iff.mp hdata
    have := mul_lt_size_of_hasData hdata
    omega

/-- A subtree takes the blocks that are needed for it. -/
theorem takes_writeSubtree (hpos : 0 < blocks) (hsize : data.size ≤ blocks * 512) (level : Nat) :
    ∀ k, Takes (κ := κ) (subtreeBlocks data level k 1)
      (writeSubtree data blocks level (k * spanOf level)) := by
  -- On the level, as the blocks are counted; the key of a node is taken before its children.
  induction level with
  | zero =>
    intro k
    have hout : (k * spanOf 0 ≠ 0 ∧ isHole data 1 (k * spanOf 0) = true) ↔
        ¬ (k = 0 ∨ HasData data (spanOf 0 * 512) k) :=
      leftOut_iff (spanOf_pos 0) le_rfl fun j hle hlt => absurd hlt (Nat.not_lt.mpr hle)
    rw [subtreeBlocks, pieces_one, writeSubtree]
    by_cases h : k = 0 ∨ HasData data (spanOf 0 * 512) k
    · rw [if_pos h, if_neg (mt hout.mp (not_not.mpr h))]
      exact takes_takeBlock.bind fun block => (takes_putBlock _ _).bind fun _ => takes_pure block
    · rw [if_neg h, if_pos (hout.mpr h)]
      exact takes_pure 0
  | succ level ih =>
    intro k
    rw [writeSubtree]
    generalize hcovered : min (spanOf (level + 1)) (blocks - k * spanOf (level + 1)) = covered
    have hout : (k * spanOf (level + 1) ≠ 0 ∧ isHole data covered (k * spanOf (level + 1)) = true) ↔
        ¬ (k = 0 ∨ HasData data (spanOf (level + 1) * 512) k) := by
      refine leftOut_iff (spanOf_pos _) (by omega) fun j hle hlt hdata => ?_
      have := mul_lt_size_of_hasData hdata
      omega
    dsimp only
    by_cases h : k = 0 ∨ HasData data (spanOf (level + 1) * 512) k
    · rw [if_neg (mt hout.mp (not_not.mpr h)), subtreeBlocks, pieces_one, if_pos h, Nat.mul_one,
        subtreeBlocks_children hpos hsize hcovered.symm rfl]
      have hfirst : k * spanOf (level + 1) = 256 * k * spanOf level := by
        rw [spanOf, ← Nat.mul_assoc, Nat.mul_comm k]
      rw [hfirst]
      refine takes_takeBlock.bind fun key => ?_
      rw [← Nat.add_zero (subtreeBlocks data level (256 * k) _)]
      exact (takes_writeChildren ih _ (256 * k) _).bind fun pointers =>
        (takes_putBlock _ _).bind fun _ => takes_pure key
    · rw [if_pos (hout.mpr h), subtreeBlocks_eq_zero fun k' hle hlt => ?_]
      · exact takes_pure 0
      · obtain rfl : k' = k := by omega
        exact not_or.mp h

end Draft

/-! ## Forks -/

theorem Descriptor.Exact.parseMini_eq {descriptor : Descriptor} {entry : Bytes 8}
    (h : descriptor.Exact data) (hmax : data.size ≤ maxEof) (hentry : descriptor.toMini = .ok entry) :
    parseMini entry = .ok descriptor := by
  obtain ⟨levels, hlevels, -⟩ := h.smallest
  refine parseMini_toMini hentry (fun he => ?_) (h.eof_eq ▸ hmax)
  rw [he] at hlevels
  cases hlevels

namespace Draft

variable {κ : Type} [BlockStore κ] {draft draft' : Draft κ} {descriptor : Descriptor}
  {resource : ByteArray}

/-- A fork that was written takes the blocks that it needs. -/
theorem of_writePlain_eq_ok (h : (writePlain data).run draft = .ok descriptor draft') :
    data.size ≤ maxEof ∧ descriptor.blocksUsed = draft'.taken.length ∧
      ∃ used, draft'.taken.length = draft.taken.length + used ∧
        { descriptor with blocksUsed := used }.Exact data := by
  unfold writePlain at h
  split at h
  · cases h
  · next hsize =>
    have hmax : data.size ≤ 16777215 := Nat.not_lt.mp hsize
    have hblocks : dataBlocks data ≤ 65536 := by
      unfold dataBlocks
      omega
    obtain ⟨levels, hlevels⟩ := exists_levels_forBlocks (dataBlocks data)
    obtain ⟨key, draft₁, hsubtree, h⟩ := exists_of_run_bind h
    obtain ⟨used, draft₂, hused, h⟩ := exists_of_run_bind h
    obtain ⟨hused, rfl⟩ := run_ask_eq_ok_iff.mp hused
    obtain rfl := Except.ok.inj hused
    cases h
    have htakes := takes_writeSubtree (κ := κ) (dataBlocks_pos data) (size_le_dataBlocks data) levels 0
    rw [Nat.zero_mul] at htakes
    have hsubtree : (writeSubtree data (dataBlocks data)
        ((StorageType.forBlocks (dataBlocks data)).levels?.getD 0) 0).run draft =
          .ok key draft' := hsubtree
    rw [hlevels, Option.getD_some] at hsubtree
    refine ⟨hmax, rfl, _, htakes hsubtree, ?_⟩
    exact ⟨⟨levels, hlevels, smallest_forBlocks hblocks hlevels⟩, rfl,
      subtreeBlocks_eq_footprint hblocks hlevels⟩

theorem run_putBlock_eq_ok {block : Nat} {bytes : Block}
    (h : (putBlock block bytes).run draft = .ok () draft') :
    (BlockStore.writeBlock block bytes).run draft.store = .ok () draft'.store ∧
      draft'.bitmap = draft.bitmap ∧ draft'.taken = draft.taken := by
  unfold putBlock at h
  rw [run_zoom] at h
  cases hw : (BlockStore.writeBlock block bytes).run draft.store with
  | ok _ store =>
    simp only [hw] at h
    cases h
    exact ⟨rfl, rfl, rfl⟩
  | error e store =>
    simp only [hw] at h
    cases h

/-- How an extended file was written to an empty draft: both forks, each of which took the blocks that
it needs, and at last the key block with their mini entries. -/
structure WroteBoth (data resource : ByteArray) (start : Draft κ) (descriptor : Descriptor)
    (draft' : Draft κ) (plain : Fork → Descriptor) : Prop where
  data_exact : (plain .data).Exact data
  resource_exact : (plain .resource).Exact resource
  type_eq : descriptor.storageType = .extended
  used_eq : descriptor.blocksUsed = 1 + (plain .data).blocksUsed + (plain .resource).blocksUsed
  length_eq : draft'.taken.length = descriptor.blocksUsed
  stored : ∃ draft dataEntry resourceEntry, start.Steps draft ∧
    Descriptor.parseMini dataEntry = .ok (plain .data) ∧
    Descriptor.parseMini resourceEntry = .ok (plain .resource) ∧
    (putBlock descriptor.keyBlock (keyBlock dataEntry resourceEntry)).run draft = .ok () draft'

theorem exists_wroteBoth (hnone : draft.taken = [])
    (h : (writeBoth data resource).run draft = .ok descriptor draft') :
    ∃ plain, WroteBoth data resource draft descriptor draft' plain := by
  unfold writeBoth at h
  -- All the steps of a write that succeeded did so, in this order.
  obtain ⟨key, draft₁, htake, h₁⟩ := exists_of_run_bind h
  obtain ⟨dataFork, _, hdata, h₂⟩ := exists_of_run_bind h₁
  obtain ⟨before, draft₂, hbefore, h₃⟩ := exists_of_run_bind h₂
  obtain ⟨hbefore, rfl⟩ := run_ask_eq_ok_iff.mp hbefore
  obtain rfl := Except.ok.inj hbefore
  obtain ⟨resourceFork, _, hresource, h₄⟩ := exists_of_run_bind h₃
  obtain ⟨dataEntry, _, hdataEntry, h₅⟩ := exists_of_run_bind h₄
  obtain ⟨hdataMini, rfl⟩ := run_ofExcept_eq_ok_iff.mp hdataEntry
  obtain ⟨resourceEntry, draft₃, hresourceEntry, h₆⟩ := exists_of_run_bind h₅
  obtain ⟨hresourceMini, rfl⟩ := run_ofExcept_eq_ok_iff.mp hresourceEntry
  obtain ⟨⟨⟩, draft₄, hput, h₇⟩ := exists_of_run_bind h₆
  obtain ⟨used, _, hused, h₈⟩ := exists_of_run_bind h₇
  obtain ⟨hused, rfl⟩ := run_ask_eq_ok_iff.mp hused
  obtain rfl := Except.ok.inj hused
  cases h₈
  obtain ⟨hdataMax, hdataUsed, dataBlocks, hdataTook, hdataExact⟩ := of_writePlain_eq_ok hdata
  obtain ⟨hresourceMax, hresourceUsed, resourceBlocks, hresourceTook, hresourceExact⟩ :=
    of_writePlain_eq_ok hresource
  -- The counts of the forks are what is left of a running total.
  have hkeyTook : draft₁.taken.length = 1 := by
    rw [takes_takeBlock htake, hnone, List.length_nil]
  have hdataCount : dataFork.blocksUsed - 1 = dataBlocks := by omega
  have hresourceCount : resourceFork.blocksUsed - draft₂.taken.length = resourceBlocks := by omega
  rw [hdataCount] at hdataMini
  rw [hresourceCount] at hresourceMini
  have hsteps := (((steps_takeBlock draft).of_ok htake).1.trans
    ((steps_writePlain data _).of_ok hdata)).trans ((steps_writePlain resource _).of_ok hresource)
  have htotal : draft'.taken.length = 1 + dataBlocks + resourceBlocks := by
    rw [(run_putBlock_eq_ok hput).2.2]
    omega
  let plain := Fork.pick { dataFork with blocksUsed := dataBlocks }
    { resourceFork with blocksUsed := resourceBlocks }
  have hdataParsed : Descriptor.parseMini dataEntry = .ok (plain .data) :=
    hdataExact.parseMini_eq hdataMax hdataMini
  have hresourceParsed : Descriptor.parseMini resourceEntry = .ok (plain .resource) :=
    hresourceExact.parseMini_eq hresourceMax hresourceMini
  exact ⟨plain, hdataExact, hresourceExact, rfl, htotal, rfl,
    draft₃, dataEntry, resourceEntry, hsteps, hdataParsed, hresourceParsed, hput⟩

variable {plain : Fork → Descriptor} {Holds : κ → (Nat → Block) → Prop} {c : Nat → Block}

/-- The last thing that is written of an extended file is its key block. -/
theorem WroteBoth.key_written (h : WroteBoth data resource draft descriptor draft' plain)
    (hF : Faithful BlockStore.readBlock BlockStore.writeBlock Holds) (hc : Holds draft.store c) :
    ∃ s c' dataEntry resourceEntry, Holds s c' ∧
      (BlockStore.writeBlock descriptor.keyBlock (keyBlock dataEntry resourceEntry)).run s =
        .ok () draft'.store ∧
      Descriptor.parseMini dataEntry = .ok (plain .data) ∧
      Descriptor.parseMini resourceEntry = .ok (plain .resource) := by
  obtain ⟨draft₃, dataEntry, resourceEntry, hsteps, hdata, hresource, hput⟩ := h.stored
  obtain ⟨c₃, hc₃, -⟩ := hsteps.exists_contents hF hc
  exact ⟨_, c₃, dataEntry, resourceEntry, hc₃, (run_putBlock_eq_ok hput).1, hdata, hresource⟩

/-- A fork is found if the key block can be read. -/
theorem WroteBoth.normalize_eq (h : WroteBoth data resource draft descriptor draft' plain)
    (hF : Faithful BlockStore.readBlock BlockStore.writeBlock Holds) (hc : Holds draft.store c)
    (fork : Fork) :
    (normalize descriptor fork).outcome draft'.store =
      ((BlockStore.readBlock descriptor.keyBlock).outcome draft'.store).map fun _ => plain fork := by
  obtain ⟨s, c', dataEntry, resourceEntry, hc', hwrite, hdata, hresource⟩ := h.key_written hF hc
  have hread := hF.read_ends ((hF.write_ends hc' _ _).of_ok hwrite) descriptor.keyBlock
  rw [Function.update_self, ends_iff] at hread
  have hends : Ends (normalize descriptor fork) draft'.store fun r _ =>
      r = ((BlockStore.readBlock descriptor.keyBlock).outcome draft'.store).map fun _ => plain fork := by
    simp only [normalize_extended h.type_eq, ends_bind, ends_ofExcept]
    rw [ends_iff]
    cases hr : (BlockStore.readBlock descriptor.keyBlock).outcome draft'.store with
    | error e => rfl
    | ok key =>
      have hbytes : key = keyBlock dataEntry resourceEntry := hread.2 key hr
      simp only [hbytes, parseMini_keyBlock (fun fork => .ok (plain fork)) hdata hresource,
        Except.map]
  exact ends_iff.mp hends

end Draft

/-! ## Writes -/

variable {κ : Type} [BlockStore κ] {store : κ} {bitmap : Bitmap} {descriptor : Descriptor}
  {after : κ × Bitmap}

/-- What is missing in the bitmap is what was taken. -/
theorem freeBlocks_of_steps {draft : Draft κ} (h : Draft.Steps ⟨store, bitmap, []⟩ draft) :
    draft.bitmap.freeBlocks + draft.taken.length = bitmap.freeBlocks := by
  obtain ⟨taken, htaken, htook, -⟩ := h.exists_took
  rw [htaken, List.append_nil]
  exact htook.freeBlocks_add

/-- A write takes as many blocks from the bitmap as it says, and no more than it has to. -/
theorem footprint_of_write :
    (∀ data descriptor after, (writeFork data).run (store, bitmap) = .ok descriptor after →
      descriptor.Exact data ∧ after.2.freeBlocks + descriptor.blocksUsed = bitmap.freeBlocks) ∧
    ∀ data resource descriptor after,
      (writeExtended data resource).run (store, bitmap) = .ok descriptor after →
        after.2.freeBlocks + descriptor.blocksUsed = bitmap.freeBlocks ∧
        ∃ plain : Fork → Descriptor, (plain .data).Exact data ∧ (plain .resource).Exact resource ∧
          descriptor.blocksUsed = 1 + (plain .data).blocksUsed + (plain .resource).blocksUsed ∧
          (∀ {Holds : κ → (Nat → Block) → Prop} {c : Nat → Block},
            Faithful BlockStore.readBlock BlockStore.writeBlock Holds → Holds store c → ∀ fork,
              (normalize descriptor fork).outcome after.1 =
                ((BlockStore.readBlock descriptor.keyBlock).outcome after.1).map
                  fun _ => plain fork) ∧
          ∀ {n : Nat} {Holds : κ → (Nat → Block) → Prop} {c : Nat → Block},
            ArrayStore n Holds → Holds store c → ∀ fork,
              (normalize descriptor fork).outcome after.1 = .ok (plain fork) := by
  refine ⟨fun data descriptor after h => ?_, fun data resource descriptor after h => ?_⟩
  · obtain ⟨draft, hrun, rfl⟩ := Draft.of_commit_eq_ok h
    obtain ⟨-, hused, used, htook, hexact⟩ := Draft.of_writePlain_eq_ok hrun
    obtain rfl : descriptor.blocksUsed = used := by rw [hused, htook, List.length_nil, Nat.zero_add]
    refine ⟨hexact, ?_⟩
    rw [hused]
    exact freeBlocks_of_steps ((Draft.steps_writePlain data _).of_ok hrun)
  · obtain ⟨draft, hrun, rfl⟩ := Draft.of_commit_eq_ok h
    obtain ⟨plain, hwrote⟩ := Draft.exists_wroteBoth rfl hrun
    have hnormalize {Holds : κ → (Nat → Block) → Prop} {c : Nat → Block}
        (hF : Faithful BlockStore.readBlock BlockStore.writeBlock Holds) (hc : Holds store c) :=
      hwrote.normalize_eq hF hc
    refine ⟨?_, plain, hwrote.data_exact, hwrote.resource_exact, hwrote.used_eq, hnormalize,
      fun {n Holds c} hS hc fork => ?_⟩
    · rw [← hwrote.length_eq]
      exact freeBlocks_of_steps ((Draft.steps_writeBoth data resource _).of_ok hrun)
    · obtain ⟨s, c', _, _, hc', hwrite, -⟩ := hwrote.key_written hS.toFaithful hc
      obtain ⟨s', hread⟩ :=
        hS.read_ok ((hS.write_ends hc' _ _).of_ok hwrite) (hS.lt_of_write hc' hwrite)
      rw [hnormalize hS.toFaithful hc, outcome_of_run_eq_ok hread]
      rfl

/-- An extended file of one block for each fork, in four blocks in memory. -/
theorem footprint_of_write_memory :
    let bitmap := Bitmap.serveAll [.one 0] (Bitmap.freshly 4)
    ∃ after, (writeExtended ⟨#[1]⟩ ⟨#[2, 3]⟩).run (Memory.zeros 4, bitmap) =
        .ok ⟨.extended, 1, 3, 512⟩ after ∧
      after.2.freeBlocks + 3 = bitmap.freeBlocks ∧
      ∃ plain : Fork → Descriptor, (plain .data).Exact ⟨#[1]⟩ ∧ (plain .resource).Exact ⟨#[2, 3]⟩ ∧
        3 = 1 + (plain .data).blocksUsed + (plain .resource).blocksUsed ∧
        ∀ fork, (normalize ⟨.extended, 1, 3, 512⟩ fork).outcome after.1 = .ok (plain fork) := by
  intro bitmap
  have hw : (writeExtended ⟨#[1]⟩ ⟨#[2, 3]⟩).run (Memory.zeros 4, bitmap) =
      .ok ⟨.extended, 1, 3, 512⟩ _ := run_eq_ok_of_outcome (by decide +kernel)
  obtain ⟨hfree, plain, hdata, hresource, hused, -, hnormalize⟩ :=
    footprint_of_write.2 _ _ _ _ hw
  have hc : (Memory.zeros 4).size = 4 ∧ (Memory.zeros 4).blocks = fun _ => Bytes.zero 512 := ⟨rfl, rfl⟩
  exact ⟨_, hw, hfree, plain, hdata, hresource, hused,
    hnormalize (Memory.exactStore 4).arrayStore hc⟩

end Diskette
