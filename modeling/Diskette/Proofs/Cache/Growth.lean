import Diskette.Proofs.Cache.Checkouts
import Diskette.Proofs.Device.RoundTrip
import Diskette.Proofs.Pool.Recency
import Mathlib.Data.Finset.Card
import Mathlib.Data.Finset.Dedup

/-!
# When a pooled cache grows

A pool gets a new buffer only when a block is asked for while every buffer is pinned. So it has never
more buffers than it had at first, or than there were blocks pinned at the same time. No failure costs
a buffer, neither of the device nor of a user with a stale handle.

* `History.out`: the blocks that are checked out. `pinnedDuring`: those pinned while a request runs.
* `Peaks`: the states that requests lead to, with the largest number of blocks pinned at one time.
* `Pool.card_out_add_idle`: every buffer is either pinned, for a block of its own, or idle.
* `Pool.size_perform`: what one request does to the number of buffers.
* `Cache.entries_eq_peak`: how many buffers there are after any requests.
-/

namespace Diskette

open Diskette.Action

namespace History

/-- The blocks that were checked out or given back. -/
def lent (history : History) : List Nat :=
  history.filterMap fun event =>
    match event.1 with
    | .acquire block => some block
    | .release handle _ _ => some handle.block
    | _ => none

/-- The blocks that are checked out. -/
def out (history : History) : Finset Nat :=
  {block ∈ history.lent.toFinset | history.count block ≠ 0}

variable {history : History} {block : Nat}

theorem count_eq_zero_of_notMem_lent (h : block ∉ history.lent) : history.count block = 0 := by
  induction history with
  | nil => rfl
  | cons event earlier ih =>
    obtain ⟨request, r⟩ := event
    simp only [lent, List.filterMap_cons] at h ih
    cases request with
    | acquire acquired =>
      simp only [List.mem_cons, not_or] at h
      cases r with
      | ok reply => simp [count, ih h.2, Ne.symm h.1]
      | error e => exact ih h.2
    | release handle dirty commit =>
      simp only [List.mem_cons, not_or] at h
      simp [count, ih h.2, Ne.symm h.1]
    | readBlock | writeBlock | zeroBlock | data | update | markDirty | sync => exact ih h

@[simp] theorem mem_out : block ∈ history.out ↔ history.count block ≠ 0 := by
  simp only [out, Finset.mem_filter, List.mem_toFinset, and_iff_right_iff_imp]
  intro hcount
  by_contra hmem
  exact hcount (count_eq_zero_of_notMem_lent hmem)

/-- A block that is checked out once more is checked out. -/
theorem Matches.out_acquire {pins : Handle → Nat} (h : history.Matches pins) (reply : Reply) :
    out ((.acquire block, .ok reply) :: history) = insert block history.out := by
  have hcount : 0 ≤ history.count block := by
    by_contra hneg
    obtain ⟨slot, hslot⟩ : ∃ slot, 0 < pins ⟨block, slot⟩ := h.exists_slot (by omega)
    have hpins : history.count block = pins ⟨block, slot⟩ := h.count_eq hslot
    omega
  ext other
  rw [mem_out, Finset.mem_insert, mem_out, count]
  by_cases hsame : block = other
  · subst hsame
    simp
    omega
  · simp [hsame, Ne.symm hsame]

end History

/-! ## Requests -/

/-- The block that a request pins. -/
def Request.pinned? : Request → Option Nat
  | .acquire block | .readBlock block | .writeBlock block _ | .zeroBlock block => some block
  | .data _ | .update _ _ | .release _ _ _ | .markDirty _ | .sync => none

/-- The blocks that are pinned while a request runs: those that are checked out, and the one that it
pins itself, if it gets it. -/
def pinnedDuring {κ : Type} [BlockCache κ] (history : History) (state : κ) (request : Request) :
    Finset Nat :=
  match request.pinned? with
  | some block =>
    if ((BlockCache.acquire block).outcome state).isOk then insert block history.out
    else history.out
  | none => history.out

theorem pinnedDuring_of_ok {κ : Type} [BlockCache κ] {history : History} {state : κ}
    {request : Request} {block : Nat} {handle : Handle} (hp : request.pinned? = some block)
    (hr : (BlockCache.acquire block).outcome state = .ok handle) :
    pinnedDuring history state request = insert block history.out := by
  simp [pinnedDuring, hp, hr, Except.isOk, Except.toBool]

theorem pinnedDuring_of_error {κ : Type} [BlockCache κ] {history : History} {state : κ}
    {request : Request} {block : Nat} {e : DiskError} (hp : request.pinned? = some block)
    (hr : (BlockCache.acquire block).outcome state = .error e) :
    pinnedDuring history state request = history.out := by
  simp [pinnedDuring, hp, hr, Except.isOk, Except.toBool]

namespace Pool

variable {pool lent : Pool} {size slot block : Nat} {history : History}

/-- A buffer that is not idle is pinned for a block. -/
theorem exists_pinsOn_of_notMem_idle (hv : pool.Valid size) (hlt : slot < pool.entries.size)
    (hidle : slot ∉ pool.idle) :
    ∃ block, pool.blockAt slot = some block ∧ 0 < pool.pinsOn ⟨block, slot⟩ := by
  have he : pool.entries[slot]? = some pool.entries[slot] := Array.getElem?_eq_getElem hlt
  rw [hv.mem_idle, pinsAt_of_entry he, Option.some.injEq] at hidle
  have hpos := Nat.pos_of_ne_zero hidle
  obtain ⟨block, hb⟩ := Option.isSome_iff_exists.mp (hv.bound he (.inr hpos))
  have hblock : pool.blockAt slot = some block := (blockAt_of_entry he).trans hb
  refine ⟨block, hblock, ?_⟩
  rw [pinsOn, if_pos hblock, pinsAt_of_entry he]
  exact hpos

theorem notMem_idle_of_pinsOn (hv : pool.Valid size) (h : 0 < pool.pinsOn ⟨block, slot⟩) :
    slot ∉ pool.idle := by
  rw [hv.mem_idle]
  intro hzero
  simp [pinsOn, hzero] at h

/-- Every buffer is idle or pinned, and those that are pinned are for the blocks checked out, one for
each. -/
theorem card_out_add_idle (hv : pool.Valid size) (hm : history.Matches pool.pinsOn) :
    history.out.card + pool.idle.length = pool.entries.size := by
  let pinned := Finset.range pool.entries.size \ pool.idle.toFinset
  have hmem {slot : Nat} : slot ∈ pinned ↔ slot < pool.entries.size ∧ slot ∉ pool.idle := by
    simp [pinned]
  -- A slot goes to its block: no two slots have one block, and only pinned ones are checked out.
  have hcard : pinned.card = history.out.card := by
    refine Finset.card_nbij (fun slot => (pool.blockAt slot).getD 0) ?maps ?inj ?surj
    case maps =>
      intro slot hslot
      obtain ⟨hlt, hidle⟩ := hmem.mp hslot
      obtain ⟨block, hb, hp⟩ := exists_pinsOn_of_notMem_idle hv hlt hidle
      have hcount : history.count block = pool.pinsOn ⟨block, slot⟩ := hm.count_eq hp
      simp only [hb, Option.getD_some, SetLike.mem_coe, History.mem_out]
      omega
    case inj =>
      intro i hi j hj hij
      obtain ⟨block, hb, -⟩ := exists_pinsOn_of_notMem_idle hv (hmem.mp hi).1 (hmem.mp hi).2
      obtain ⟨other, hb', -⟩ := exists_pinsOn_of_notMem_idle hv (hmem.mp hj).1 (hmem.mp hj).2
      simp only [hb, hb', Option.getD_some] at hij
      exact hv.blockAt_inj hb (hij ▸ hb')
    case surj =>
      intro block hblock
      obtain ⟨slot, hslot⟩ := hm.exists_slot (History.mem_out.mp hblock)
      have hb : pool.blockAt slot = some block := bound_of_pinsOn hslot
      exact ⟨slot, hmem.mpr ⟨lt_of_blockAt hb, notMem_idle_of_pinsOn hv hslot⟩, by simp [hb]⟩
  have hidle : pool.idle.toFinset ⊆ Finset.range pool.entries.size := by
    intro slot hslot
    exact Finset.mem_range.mpr (hv.lt_of_mem_idle (List.mem_toFinset.mp hslot))
  rw [← hcard, ← List.toFinset_card_of_nodup hv.nodup_idle, Finset.card_sdiff_add_card_eq_card hidle,
    Finset.card_range]

/-- A pool grows only if all its buffers are pinned for other blocks. -/
theorem Lends.size_eq_max (hl : Lends pool block slot lent)
    (hcard : (insert block history.out).card + lent.idle.length = lent.entries.size) :
    lent.entries.size = max pool.entries.size (insert block history.out).card := by
  have hsize := hl.size_eq
  split at hsize
  · next hgrown =>
    rw [hl.idle_eq, hgrown.1, List.erase_nil, List.length_nil] at hcard
    omega
  · omega

variable {δ : Type} [Disk δ] {state state' : Pool × δ}

/-- Checking out a block makes the pool as large as the number of blocks that are pinned then, if it
was smaller. -/
theorem size_acquire (hO : Oblivious δ) (ht : Tidy size state)
    (hm : history.Matches state.1.pinsOn) (block : Nat) :
    ((acquire block).stateAfter state).1.entries.size =
      max state.1.entries.size (pinnedDuring history state (.acquire block)).card := by
  have hlends : Ends (acquire block) state _ := acquire_lends block
  cases hr : (BlockCache.acquire block).outcome state with
  | ok handle =>
    have hrun := run_eq_ok_of_outcome hr
    have hperform : (Request.acquire block).perform.run state = .ok (.handle handle) _ :=
      run_bind_of_ok hrun _
    have hmoves := (moves_perform hO ht (.acquire block)).of_ok hperform
    have hcard := card_out_add_idle hmoves.1.valid (hmoves.matches ht hm)
    rw [hm.out_acquire] at hcard
    rw [pinnedDuring_of_ok rfl hr]
    exact (hlends.of_ok hrun).2.size_eq_max hcard
  | error e =>
    have hrun := run_eq_error_of_outcome hr
    have hsame : ((acquire block).stateAfter state).1 = state.1 := hlends.of_error hrun
    have hcard := card_out_add_idle ht.valid hm
    rw [pinnedDuring_of_error rfl hr, hsame]
    omega

/-- What becomes of the block that was checked out, the pool is as large as it was then. -/
theorem Visits.size_eq (h : Visits block state state') :
    state'.1.entries.size = ((acquire block).stateAfter state).1.entries.size := by
  unfold Visits at h
  unfold stateAfter
  split at h
  · next hr =>
    rw [hr, h.size_eq, size_unpin]
  · next hr =>
    rw [hr, h]

/-- Giving a block back never changes the number of buffers. -/
theorem size_release (handle : Handle) (dirty commit : Bool) :
    Ends (release handle dirty commit) state fun _ s' =>
      s'.1.entries.size = state.1.entries.size := by
  by_cases hpos : 0 < state.1.pinsOn handle
  · obtain ⟨entry, he⟩ := exists_checkedOut_iff.mpr hpos
    exact (release_slots he dirty commit).mono fun _ _ hs => hs.size_eq.trans size_unpin
  · have hrun := run_release_of_stale (Nat.eq_zero_of_not_pos hpos) dirty commit
    exact (ends_of_run_eq_error hrun).mpr rfl

/-- What a request does to the number of buffers. -/
theorem size_perform (hO : Oblivious δ) (ht : Tidy size state) (hm : history.Matches state.1.pinsOn)
    (request : Request) :
    Ends request.perform state fun _ s' =>
      s'.1.entries.size = max state.1.entries.size (pinnedDuring history state request).card := by
  have hcard := card_out_add_idle ht.valid hm
  have hsame {size' : Nat} (h : size' = state.1.entries.size) :
      size' = max state.1.entries.size history.out.card := by
    omega
  -- Only a block that is brought in can cost a buffer, so every request is an `acquire` or leaves
  -- the size alone.
  have hacquire := size_acquire hO ht hm
  cases request with
  | acquire block =>
    have hafter : (Request.acquire block).perform.stateAfter state =
        (acquire block).stateAfter state := stateAfter_bind_pure Reply.handle
    rw [ends_iff, hafter]
    exact hacquire block
  | readBlock block =>
    exact (readBlock_slots ht.valid block).bind (fun _ _ hs => hs.size_eq.trans (hacquire block))
      fun _ _ hs => hs.size_eq.trans (hacquire block)
  | writeBlock block bytes =>
    exact (writeBlock_slots ht.valid block bytes).bind
      (fun _ _ hs => hs.size_eq.trans (hacquire block)) fun _ _ hs => hs.size_eq.trans (hacquire block)
  | zeroBlock block =>
    exact (writeBlock_slots ht.valid block _).bind
      (fun _ _ hs => hs.size_eq.trans (hacquire block)) fun _ _ hs => hs.size_eq.trans (hacquire block)
  | data handle =>
    refine ends_bind.mpr (ends_ask.mpr ?_)
    cases BlockCache.data handle state with
    | ok bytes => exact hsame rfl
    | error e => exact hsame rfl
  | update handle change =>
    exact (update_slots handle change).bind (fun _ _ hs => hsame hs.size_eq)
      fun _ _ hs => hsame hs.size_eq
  | release handle dirty commit =>
    exact (size_release handle dirty commit).bind (fun _ _ hs => hsame hs) fun _ _ hs => hsame hs
  | markDirty block =>
    exact (markDirty_slots block).bind (fun _ _ hs => hsame hs.size_eq) fun _ _ hs => hsame hs.size_eq
  | sync => exact sync_slots.bind (fun _ _ hs => hsame hs.size_eq) fun _ _ hs => hsame hs.size_eq

end Pool

/-! ## Runs -/

namespace Cache

/-- The states of a cache that requests lead to, each with its history and with the largest number of
blocks that were pinned at one time. Between the requests others may do with the files of the host
what they like. -/
inductive Peaks (start : Cache × Host) : History → Nat → Cache × Host → Prop
  | start : Peaks start [] 0 start
  | request {history : History} {peak : Nat} {state : Cache × Host}
      (h : Peaks start history peak state) (request : Request) :
      Peaks start ((request, request.perform.outcome state) :: history)
        (max peak (pinnedDuring history state request).card) (request.perform.stateAfter state)
  | others {history : History} {peak : Nat} {state : Cache × Host}
      (h : Peaks start history peak state) (host : Host) : Peaks start history peak (state.1, host)

variable {start : Cache × Host} {history : History} {peak : Nat} {state : Cache × Host}

theorem pinnedDuring_ofState (state : Pool × Device × Host) (request : Request) :
    pinnedDuring history (ofState state) request = pinnedDuring history state request := by
  unfold pinnedDuring
  split
  · rw [(embeds_ofState.acquire _).outcome_eq]
  · rfl

/-- All blocks of a device that does not fail can be pinned at one time. -/
theorem exists_peaks {device : Device} {host : Host} {Sound : Device × Host → Prop}
    (hD : Dependable device.readOnly Sound) (hs : Sound (device, host)) (size : Nat) {count : Nat}
    (hcount : count ≤ device.blocks) :
    ∃ history state, Peaks (ofPool device size, host) history count state := by
  suffices hall : ∃ history pooled, Peaks (ofPool device size, host) history count (ofState pooled) ∧
      history.out = Finset.range count ∧ history.Matches pooled.1.pinsOn ∧
      Pool.Tidy device.blocks pooled ∧ Pool.Supplied device.readOnly Sound pooled by
    obtain ⟨history, pooled, hpeaks, -⟩ := hall
    exact ⟨history, _, hpeaks⟩
  -- One block more is checked out at each step, and none is given back.
  induction count with
  | zero =>
    refine ⟨[], (.ofSize (max size minPoolSize), device, host), .start, rfl,
      History.matches_nil fun handle => ?_, ⟨rfl, Pool.valid_ofSize _ _⟩, hs, ?_⟩
    · exact Pool.pinsOn_ofSize _ handle
    · exact Pool.writable_ofSize _
  | succ count ih =>
    obtain ⟨history, pooled, hpeaks, hout, hpins, htidy, hsupplied⟩ := ih (Nat.le_of_succ_le hcount)
    obtain ⟨⟨handle, hr⟩, hsupplied'⟩ := ends_iff.mp
      (Pool.supplied_acquire hD Device.oblivious htidy hsupplied hcount)
    have hrun : (Request.acquire count).perform.run pooled = .ok (.handle handle) _ :=
      run_bind_of_ok (run_eq_ok_of_outcome hr) _
    have hmoves := (Pool.moves_perform Device.oblivious htidy (.acquire count)).of_ok hrun
    have hmirror := embeds_ofState.perform (.acquire count)
    have hnext := hpeaks.request (.acquire count)
    have hduring : pinnedDuring history pooled (.acquire count) = Finset.range (count + 1) := by
      rw [pinnedDuring_of_ok rfl hr, hout, Finset.range_add_one]
    rw [pinnedDuring_ofState, hmirror.outcome_eq, hmirror.stateAfter_eq, outcome_of_run_eq_ok hrun,
      hduring, Finset.card_range, Nat.max_eq_right (Nat.le_succ count)] at hnext
    have hafter : (Request.acquire count).perform.stateAfter pooled =
        (Pool.acquire count).stateAfter pooled := stateAfter_bind_pure Reply.handle
    rw [hafter] at hnext
    refine ⟨_, _, hnext, ?_, hmoves.matches htidy hpins, hmoves.1, hsupplied'⟩
    rw [hpins.out_acquire, hout, Finset.range_add_one]

/-- A pooled cache has as many buffers as it had at first, or as there were blocks pinned at one time
if that is more. A block that cannot be checked out costs no buffer, and neither does giving one back,
whatever comes of it. -/
theorem entries_eq_peak {device : Device} {host : Host} {size : Nat}
    (h : Peaks (ofPool device size, host) history peak state) :
    state.1.entries? = some (max (max size minPoolSize) peak) ∧
      (∀ block, Fails (BlockCache.acquire block) state →
        ((BlockCache.acquire block).stateAfter state).1.entries? = state.1.entries?) ∧
      ∀ handle dirty commit,
        ((BlockCache.release handle dirty commit).stateAfter state).1.entries? =
          state.1.entries? := by
  have hreached : ∃ pool device' host', state = ofState (pool, device', host') ∧
      Pool.Tidy device.blocks (pool, device', host') ∧ history.Matches pool.pinsOn ∧
      pool.entries.size = max (max size minPoolSize) peak := by
    induction h with
    | start =>
      refine ⟨_, device, host, rfl, ⟨rfl, Pool.valid_ofSize _ _⟩, History.matches_nil fun handle => ?_,
        ?_⟩
      · exact Pool.pinsOn_ofSize _ handle
      · simp [Pool.ofSize]
    | request _ request ih =>
      obtain ⟨pool, device', host', rfl, htidy, hpins, hsize⟩ := ih
      have hmirror := embeds_ofState.perform request
      have hmoves := ends_iff.mp (Pool.moves_perform Device.oblivious htidy request)
      have hgrown := ends_iff.mp (Pool.size_perform Device.oblivious htidy hpins request)
      rw [hmirror.outcome_eq, hmirror.stateAfter_eq, pinnedDuring_ofState]
      refine ⟨_, _, _, rfl, hmoves.1, hmoves.matches htidy hpins, hgrown.trans ?_⟩
      show max pool.entries.size _ = _
      -- The peak so far and that of this request are taken together.
      rw [hsize, Nat.max_assoc]
    | others _ host' ih =>
      obtain ⟨pool, device', _, rfl, htidy, hpins, hsize⟩ := ih
      exact ⟨pool, device', host', rfl, ⟨htidy.blocks_eq, htidy.valid⟩, hpins, hsize⟩
  obtain ⟨pool, device', host', rfl, -, -, hsize⟩ := hreached
  refine ⟨congrArg some hsize, fun block hfails => ?_, fun handle dirty commit => ?_⟩
  · obtain ⟨e, he⟩ := hfails
    rw [(embeds_ofState.acquire block).outcome_eq] at he
    rw [(embeds_ofState.acquire block).stateAfter_eq]
    have hsame := (Pool.acquire_lends block).of_error (run_eq_error_of_outcome he)
    exact congrArg (fun pool : Pool => some pool.entries.size) hsame
  · rw [(embeds_ofState.release handle dirty commit).stateAfter_eq]
    exact congrArg some (ends_iff.mp (Pool.size_release handle dirty commit))

/-- A new image of 140 KB behind the least number of buffers, with one block more checked out. -/
theorem entries_eq_peak_created :
    ∃ device created, (Device.create "disk.po" .proDosOrder 280 {}).run Host.empty =
        .ok device created ∧
      ∃ history state, Peaks (ofPool device 16, created) history 17 state ∧
        state.1.entries? = some 17 := by
  obtain ⟨device, created, hcreate, hfresh, hblocks⟩ := Device.exists_created
  obtain ⟨history, state, hpeaks⟩ := exists_peaks (Device.arrayDisk (device, created)).dependable
    ⟨_, .refl _, hfresh.holds⟩ 16 (hblocks ▸ (by decide : 17 ≤ 280))
  exact ⟨device, created, hcreate, history, state, hpeaks, (entries_eq_peak hpeaks).1⟩

end Cache

end Diskette
