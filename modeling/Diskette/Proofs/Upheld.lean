import Diskette.Proofs.Device.Steady
import Diskette.Proofs.Pool.Parallel
import Diskette.Proofs.Usage

/-!
# What holds however a device is used

An invariant of a device that every access keeps on good media, with the count of the blocks that were
written, is kept by whatever is done with the device there through caches. If the device is
protected, nothing in front of it is ever marked as changed.

* `Device.Upholds`: every access to a device keeps an invariant.
* `Uniform`: what can be done with every kind of cache alike.
* `Device.Upholds.run`: what is done with a cache keeps the invariant.
* `Device.Upholds.used`: so does all use of the device.
-/

namespace Diskette

open Diskette.Action

variable {α σ τ : Type} {good : Medium → Prop} {isProtected : Prop}
  {Inv : Nat → Device × Host → Prop} {n : Nat}

/-- On good media, every access to a device keeps an invariant that may speak of the number of blocks
written so far. A device that is protected is read-only. -/
structure Device.Upholds (good : Medium → Prop) (isProtected : Prop)
    (Inv : Nat → Device × Host → Prop) : Prop where
  readOnly_eq {n : Nat} {state : Device × Host} (hp : isProtected) (h : Inv n state) :
    state.1.readOnly = true
  warn {n : Nat} {device : Device} {host : Host} (h : Inv n (device, host)) (warning : Warning) :
    Inv n (device, host.warn warning)
  read {n : Nat} {state : Device × Host} (h : Inv n state) (block : Nat) :
    Ends (Device.read block) state fun _ after => Inv n after
  write {n : Nat} {state : Device × Host} [medium : Medium] (hg : good medium) (h : Inv n state)
    (block : Nat) (data : Block) :
    Ends (Device.write block data) state fun r after => Inv (countOk r n) after
  flush {n : Nat} {state : Device × Host} [medium : Medium] (hg : good medium) (h : Inv n state) :
    Ends Device.flush state fun _ after => Inv n after
  update {n : Nat} {state : Device × Host} (h : Inv n state)
    (hm : state.1.storage.mapped = true) (block : Nat) (change : Block → Block) :
    Ends (Device.updateMapped block change) state fun r after => Inv (countOk r n) after

/-! ## Counting does not disturb -/

namespace Counted

theorem agree_inside {act : Action σ α} {s : σ} {Q : Except DiskError α → σ → Counted σ → Prop}
    (h : Ends act s fun r s' => Q r s' ⟨s', n⟩) : Agree act s (inside act) ⟨s, n⟩ Q := by
  unfold Ends at h
  unfold Agree inside
  rw [run_zoom]
  dsimp only
  cases hr : act.run s with
  | ok a s' => rw [hr] at h; exact ⟨rfl, h⟩
  | error e s' => rw [hr] at h; exact ⟨rfl, h⟩

theorem agree_tick {act : Action σ Unit} {s : σ}
    {Q : Except DiskError Unit → σ → Counted σ → Prop}
    (h : Ends act s fun r s' => Q r s' ⟨s', countOk r n⟩) :
    Agree act s (do inside act; tick) ⟨s, n⟩ Q := by
  unfold Ends at h
  unfold Agree
  rw [EStateM.run_bind]
  unfold inside
  rw [run_zoom]
  dsimp only
  cases hr : act.run s with
  | ok a s' => rw [hr] at h; exact ⟨rfl, h⟩
  | error e s' => rw [hr] at h; exact ⟨rfl, h⟩

end Counted

/-- A device, and one that counts what is written to it. -/
structure Device.Tallied (Inv : Nat → Device × Host → Prop) (state : Device × Host)
    (counted : Counted (Device × Host)) : Prop where
  inner_eq : counted.inner = state
  inv : Inv counted.count state

theorem Device.Upholds.disksAgree [medium : Medium] (hU : Device.Upholds good isProtected Inv)
    (hg : good medium) :
    DisksAgree (Device.Tallied Inv) where
  blocks_eq h := congrArg Disk.blocks h.inner_eq
  readOnly_eq h := congrArg Disk.readOnly h.inner_eq
  read block := by
    rintro state ⟨_, n⟩ ⟨rfl, hinv⟩
    exact Counted.agree_inside ((hU.read hinv block).mono fun _ _ h => ⟨rfl, h⟩)
  write block data := by
    rintro state ⟨_, n⟩ ⟨rfl, hinv⟩
    exact Counted.agree_tick ((hU.write hg hinv block data).mono fun _ _ h => ⟨rfl, h⟩)
  flush := by
    rintro state ⟨_, n⟩ ⟨rfl, hinv⟩
    exact Counted.agree_inside ((hU.flush hg hinv).mono fun _ _ h => ⟨rfl, h⟩)

/-! ## Mappings -/

namespace Mapping

/-- A mapping, and one that counts the changes, which are in the file at once. -/
structure Tallied (isProtected : Prop) (Inv : Nat → Device × Host → Prop)
    (state : Mapping × Device × Host) (counted : Counted (Mapping × Device × Host)) : Prop where
  inner_eq : counted.inner = state
  inv : Inv counted.count state.2
  mapped : state.2.1.storage.mapped = true
  clean (h : isProtected) (block : Nat) : block ∉ state.1.dirty

/-- What only asks and keeps record of blocks leaves the device alone, and the record empty if the
device is read-only. -/
def Records (act : Action (Mapping × Device × Host) α) : Prop :=
  ∀ state, Ends act state fun _ after => after.2 = state.2 ∧
    (state.2.1.readOnly = true → (∀ block, block ∉ state.1.dirty) → ∀ block, block ∉ after.1.dirty)

theorem Records.bind {β : Type} {act : Action (Mapping × Device × Host) α}
    {f : α → Action (Mapping × Device × Host) β} (h : Records act) (hf : ∀ a, Records (f a)) :
    Records (act >>= f) := by
  intro state
  refine (h state).bind (fun a middle hm => (hf a middle).mono fun _ after ha => ?_) fun _ _ hm => hm
  refine ⟨ha.1.trans hm.1, fun hr hc => ha.2 (hm.1 ▸ hr) (hm.2 hr hc)⟩

theorem records_pure (a : α) : Records (pure a) := fun _ => ⟨rfl, fun _ hc => hc⟩

theorem records_ask (query : Mapping × Device × Host → Except DiskError α) :
    Records (ask query) := fun _ => ends_ask.mpr ⟨rfl, fun _ hc => hc⟩

theorem records_flag (block : Nat) : Records (flag block) := by
  rintro ⟨mapping, device, host⟩
  unfold flag
  simp only [ends_bind, ends_ask]
  cases hr : device.readOnly with
  | true => exact ⟨trivial, fun _ hc => hc⟩
  | false => exact ⟨rfl, fun hr' => absurd hr' Bool.false_ne_true⟩

theorem records_syncBlock [Medium] (block : Nat) : Records (syncBlock block) := by
  refine (records_ask _).bind fun _ state => ?_
  obtain ⟨⟨dirty⟩, device, host⟩ := state
  refine ⟨rfl, fun _ hc other hmem => hc other ?_⟩
  exact (Std.TreeSet.mem_erase.mp hmem).2

theorem records_syncBlocks [Medium] (blocks : List Nat) : Records (syncBlocks blocks) := by
  induction blocks with
  | nil => exact records_pure ()
  | cons block rest ih => exact (records_syncBlock block).bind fun _ => ih

theorem records_commitBlock [Medium] (block : Nat) : Records (commitBlock block) := by
  rintro ⟨mapping, state⟩
  by_cases hd : mapping.dirty.contains block
  · refine (ends_congr ?_).mpr (records_syncBlock block (mapping, state))
    simp [EStateM.run, commitBlock, hd]
  · have hrun : (commitBlock block).run (mapping, state) = .ok () (mapping, state) := by
      simp [EStateM.run, commitBlock, hd]
    exact (ends_of_run_eq_ok hrun).mpr ⟨rfl, fun _ hc => hc⟩

theorem records_release [Medium] (handle : Handle) (dirty commit : Bool) :
    Records (release handle dirty commit) := by
  refine (records_ask _).bind fun _ => ?_
  cases dirty with
  | false =>
    cases commit with
    | false => exact records_pure ()
    | true => exact records_commitBlock _
  | true =>
    cases commit with
    | false => exact (records_flag _).bind fun _ => records_pure ()
    | true => exact (records_flag _).bind fun _ => records_commitBlock _

theorem records_syncDirty [Medium] : Records syncDirty := fun state =>
  records_syncBlocks state.1.dirty.toList state

theorem Records.agree (hU : Device.Upholds good isProtected Inv)
    {act : Action (Mapping × Device × Host) α} (h : Records act)
    {state : Mapping × Device × Host} {counted : Counted (Mapping × Device × Host)}
    (ht : Tallied isProtected Inv state counted) :
    Agree act state (Counted.inside act) counted fun _ => Tallied isProtected Inv := by
  obtain ⟨_, n⟩ := counted
  obtain ⟨rfl, hinv, hmapped, hclean⟩ := ht
  refine Counted.agree_inside ((h _).mono fun r after ha => ⟨rfl, ?_, ?_, fun hp => ?_⟩)
  · rw [ha.1]
    exact hinv
  · rw [ha.1]
    exact hmapped
  · exact ha.2 (hU.readOnly_eq hp hinv) (hclean hp)

/-- A mapping does the same whether its changes are counted or not. -/
theorem alternates [medium : Medium] (hU : Device.Upholds good isProtected Inv) (hg : good medium) :
    Alternates (Tallied isProtected Inv) where
  acquire h block := Records.agree hU ((records_ask _).bind fun _ => records_pure _) h
  data_eq h handle := congrArg (BlockCache.data handle) h.inner_eq
  update {state counted} h handle change := by
    obtain ⟨⟨mapping, state⟩, n⟩ := counted
    obtain ⟨rfl, hinv, hmapped, hclean⟩ := h
    refine Counted.agree_tick (ends_onSecond.mpr ?_)
    refine ((hU.update hinv hmapped handle.block change).and
      (Device.retains_storage_updateMapped handle.block change state)).mono ?_
    exact fun _ _ h => ⟨rfl, h.1, (congrArg Storage.mapped h.2).trans hmapped, hclean⟩
  release h handle dirty commit := Records.agree hU (records_release handle dirty commit) h
  markDirty h block := Records.agree hU ((records_ask _).bind fun _ => records_flag block) h
  sync {state counted} h := by
    obtain ⟨_, n⟩ := counted
    obtain ⟨rfl, hinv, hmapped, hclean⟩ := h
    refine Counted.agree_inside ((records_syncDirty _).bind ?_ ?_)
    · rintro ⟨⟩ ⟨mapping, state⟩ ⟨hstate, hdirty⟩
      dsimp only at hstate
      subst hstate
      refine ends_onSecond.mpr (((hU.flush hg hinv).and (Device.retains_storage_flush _)).mono ?_)
      refine fun _ _ h => ⟨rfl, h.1, (congrArg Storage.mapped h.2).trans hmapped, fun hp => ?_⟩
      exact hdirty (hU.readOnly_eq hp hinv) (hclean hp)
    -- A sync that fails on the way has written nothing to the device yet.
    · rintro e after ⟨hstate, hdirty⟩
      refine ⟨rfl, ?_, ?_, fun hp => hdirty (hU.readOnly_eq hp hinv) (hclean hp)⟩
      · rw [hstate]
        exact hinv
      · rw [hstate]
        exact hmapped

end Mapping

/-! ## Caches -/

/-- What can be done with every kind of cache alike: caches that agree on what a cache can do agree
on it. -/
def Uniform (act : ∀ (κ : Type) [BlockCache κ], Action κ α) : Prop :=
  ∀ ⦃κ κ' : Type⦄ [BlockCache κ] [BlockCache κ'] ⦃R : κ → κ' → Prop⦄, Alternates R →
    Parallel R (act κ) (act κ')

theorem Request.uniform (request : Request) : Uniform fun _ _ => request.perform :=
  fun _ _ _ _ _ hR _ _ h => hR.perform h request

theorem Alternates.storesAgree {κ κ' : Type} [BlockCache κ] [BlockCache κ'] {R : κ → κ' → Prop}
    (hR : Alternates R) : StoresAgree R where
  readBlock block _ _ h := hR.readBlock h block
  writeBlock block data _ _ h := hR.writeBlock h block data

theorem Task.uniform (task : Task) : Uniform fun _ _ => task.perform :=
  fun _ _ _ _ _ hR => task.parallel_perform hR.storesAgree fun _ _ h => hR.sync h

theorem uniform_sync : Uniform fun _ _ => BlockCache.sync := fun _ _ _ _ _ hR _ _ h => hR.sync h

theorem Action.Mirrors.agree {place : σ → τ} {act : Action σ α} {act' : Action τ α}
    (h : Mirrors place act act') (s : σ) :
    Agree act s act' (place s) fun _ s t => t = place s :=
  agree_iff.mpr ⟨h.outcome_eq s, h.stateAfter_eq s⟩

namespace Cache

/-- A cache is the pool or the mapping in it. -/
theorem Embeds.alternates [Medium] {place : σ → Cache × Host} [BlockCache σ] (h : Embeds place) :
    Alternates fun (s : σ) (t : Cache × Host) => t = place s where
  acquire {s _} hs block := hs ▸ (h.acquire block).agree s
  data_eq {s _} hs handle := hs ▸ h.data_eq handle s
  update {s _} hs handle change := hs ▸ (h.update handle change).agree s
  release {s _} hs handle dirty commit := hs ▸ (h.release handle dirty commit).agree s
  markDirty {s _} hs block := hs ▸ (h.markDirty block).agree s
  sync {s _} hs := hs ▸ h.sync.agree s

theorem stateAfter_eq_place [Medium] {place : σ → Cache × Host} [BlockCache σ]
    {act : ∀ (κ : Type) [BlockCache κ], Action κ α} (hact : Uniform act) (h : Embeds place) (s : σ) :
    (act (Cache × Host)).stateAfter (place s) = place ((act σ).stateAfter s) :=
  (agree_iff.mp (hact h.alternates rfl)).2

theorem warnInUse_eq (strategy : Strategy) (host : Host) :
    warnInUse strategy host = host ∨ ∃ warning, warnInUse strategy host = host.warn warning := by
  cases strategy with
  | pooled pool =>
    by_cases hp : pool.pinned = 0
    · exact .inl (if_pos hp)
    · exact .inr ⟨_, if_neg hp⟩
  | mapped mapping => exact .inl rfl

/-- Nothing is marked as changed. -/
def Clean (cache : Cache) : Prop :=
  match cache.strategy with
  | .pooled pool => ∀ slot, pool.CleanAt slot
  | .mapped mapping => ∀ block, block ∉ mapping.dirty

/-- A mapping stands before a file that is mapped. -/
def Grounded (cache : Cache) : Prop :=
  match cache.strategy with
  | .pooled _ => True
  | .mapped _ => cache.device.storage.mapped = true

/-- The device of a cache satisfies the invariant. If it is protected, nothing is marked as
changed. -/
structure Upheld (isProtected : Prop) (Inv : Nat → Device × Host → Prop) (n : Nat)
    (state : Cache × Host) : Prop where
  inv : Inv n (state.1.device, state.2)
  grounded : state.1.Grounded
  clean (h : isProtected) : state.1.Clean

end Cache

/-- What is done with a cache keeps the invariant of its device. -/
theorem Device.Upholds.run [medium : Medium] (hU : Device.Upholds good isProtected Inv)
    (hg : good medium) {act : ∀ (κ : Type) [BlockCache κ], Action κ α} (hact : Uniform act)
    {state : Cache × Host} (h : Cache.Upheld isProtected Inv n state) :
    Cache.Upheld isProtected Inv (Cache.writesAfter act n state)
      ((act (Cache × Host)).stateAfter state) := by
  obtain ⟨⟨strategy, device⟩, host⟩ := state
  obtain ⟨hinv, hgrounded, hclean⟩ := h
  cases strategy with
  | pooled pool =>
    have hpaired : Pool.Paired isProtected (Device.Tallied Inv) (pool, device, host)
        (pool, ⟨(device, host), n⟩) := ⟨rfl, ⟨rfl, hinv⟩, hclean⟩
    have halternates := Pool.alternates (hU.disksAgree hg) fun hp _ _ h => hU.readOnly_eq hp h.inv
    have hafter := (agree_iff.mp (hact halternates hpaired)).2
    have hplace := Cache.stateAfter_eq_place hact Cache.embeds_ofState (pool, device, host)
    refine hplace.symm ▸ ?_
    exact ⟨hafter.disks.inv, trivial, hafter.cleanAt⟩
  | mapped mapping =>
    have htallied : Mapping.Tallied isProtected Inv (mapping, device, host)
        ⟨(mapping, device, host), n⟩ := ⟨rfl, hinv, hgrounded, hclean⟩
    have hafter := (agree_iff.mp (hact (Mapping.alternates hU hg) htallied)).2
    have hplace := Cache.stateAfter_eq_place hact Cache.embeds_ofMapped (mapping, device, host)
    refine hplace.symm ▸ ?_
    exact ⟨hafter.inv, hafter.mapped, hafter.clean⟩

/-! ## All use of a device -/

/-- The device satisfies the invariant, by itself or behind a cache. -/
def Mount.Upheld (isProtected : Prop) (Inv : Nat → Device × Host → Prop) (n : Nat) (host : Host) :
    Mount → Prop
  | bare device => Inv n (device, host)
  | cached cache => Cache.Upheld isProtected Inv n (cache, host)

namespace Device.Upholds

theorem operate [medium : Medium] (hU : Device.Upholds good isProtected Inv) (hg : good medium)
    {state : Device × Host} (h : Inv n state) (operation : Operation) :
    Inv (operation.writesAfter n state) (operation.perform.stateAfter state) := by
  cases operation with
  | read block =>
    have hread := (hU.read h block).bind (f := fun _ => pure ()) (R := fun _ after => Inv n after)
      (fun _ _ h => h) fun _ _ h => h
    exact ends_iff.mp hread
  | write block data => exact ends_iff.mp (hU.write hg h block data)
  | zeroBlock block => exact ends_iff.mp (hU.write hg h block _)
  | sync =>
    have hsync : Ends sync state fun _ after => Inv n after := ends_ask.mpr h
    exact ends_iff.mp hsync
  | flush => exact ends_iff.mp (hU.flush hg h)

theorem ofPool {device : Device} {host : Host} (h : Inv n (device, host)) (size : Nat) :
    Cache.Upheld isProtected Inv n (.ofPool device size, host) where
  inv := h
  grounded := trivial
  clean _ slot entry he := by
    simp only [Pool.ofSize, Array.getElem?_replicate] at he
    split at he
    · cases he
      rfl
    · cases he

theorem ofMapping [Medium] {device : Device} {host after : Host} {cache : Cache}
    (h : Inv n (device, host))
    (hm : (Cache.ofMapping device).run host = .ok cache after) :
    Cache.Upheld isProtected Inv n (cache, after) := by
  unfold EStateM.run Cache.ofMapping at hm
  split at hm
  · next hsupports =>
    cases hm
    exact ⟨h, (Bool.and_eq_true_iff.mp hsupports).1, fun _ _ => Std.TreeSet.not_mem_emptyc⟩
  · cases hm

theorem warnInUse (hU : Device.Upholds good isProtected Inv) {cache : Cache} {host : Host}
    (h : Cache.Upheld isProtected Inv n (cache, host)) :
    Cache.Upheld isProtected Inv n (cache, Cache.warnInUse cache.strategy host) := by
  refine ⟨?_, h.grounded, h.clean⟩
  rcases Cache.warnInUse_eq cache.strategy host with heq | ⟨warning, heq⟩
  · rw [heq]
    exact h.inv
  · rw [heq]
    exact hU.warn h.inv warning

/-- A cache is synced, and its device goes on. -/
theorem detach [medium : Medium] (hU : Device.Upholds good isProtected Inv) (hg : good medium)
    {cache : Cache}
    {host : Host} (h : Cache.Upheld isProtected Inv n (cache, host)) :
    Inv (Cache.writesAfter (fun _ _ => BlockCache.sync) n
      (cache, Cache.warnInUse cache.strategy host)) (cache.detach host) := by
  have hsync := (hU.run hg uniform_sync (hU.warnInUse h)).inv
  unfold Cache.detach
  unfold stateAfter EStateM.run at hsync
  dsimp only at hsync ⊢
  split at hsync
  · next heq =>
    rw [heq]
    exact hsync
  · next heq =>
    rw [heq]
    exact hU.warn hsync _

/-- Whatever is done with a device, by itself and through caches, keeps the invariant. -/
theorem used (hU : Device.Upholds good isProtected Inv) {device : Device} {host after : Host}
    {mount : Mount} (hstart : Inv 0 (device, host)) (h : Used good device host mount after n) :
    mount.Upheld isProtected Inv n after := by
  -- On what was done so far; each way to go on has its own rule above.
  induction h with
  | start => exact hstart
  | operate hg _ operation hs ih =>
    have hnext := hU.operate hg ih operation
    rw [hs] at hnext
    exact hnext
  | pool _ size ih => exact ofPool ih size
  | map _ hm ih => exact ofMapping ih hm
  | request hg _ request hs ih =>
    have hnext := hU.run hg request.uniform ih
    rw [hs] at hnext
    exact hnext
  | task hg _ task hs ih =>
    have hnext := hU.run hg task.uniform ih
    rw [hs] at hnext
    exact hnext
  | @syncBlock _ m m' d d' h h' n _ block hs ih =>
    have hends := ends_iff.mp (Mapping.records_syncBlock block (m, d, h))
    rw [hs] at hends
    obtain ⟨hstate, hdirty⟩ := hends
    cases hstate
    exact ⟨ih.inv, ih.grounded, fun hp => hdirty (hU.readOnly_eq hp ih.inv) (ih.clean hp)⟩
  | detach hg _ hs ih =>
    have hnext := hU.detach hg ih
    rw [hs] at hnext
    exact hnext

end Device.Upholds

end Diskette
