import Diskette.Proofs.Cache.Strategy
import Diskette.Proofs.Pool.Pins

/-!
# What is checked out of a pooled cache

A block is checked out as often as it was acquired and not given back. The pool keeps exactly this
number of pins for it, a handle is good exactly while it is positive, and until then the block keeps
its buffer. Requests may come in any order, with good handles or stale ones; any access to the device
may fail, and between the requests others may do with the files of the host what they like.

* `History.count`, `History.held`: how often a block is checked out, and under which handles.
* `Visited`: the states that requests lead to, with their history.
* `Pool.moves_perform`: what one request does to the pins.
* `Cache.accounted_of_visited`: in every state the pins are those of the history.
-/

namespace Diskette

open Diskette.Action

/-- Requests and what came of them, the last one first. -/
abbrev History := List (Request × Except DiskError Reply)

/-- Whether a request was refused because of a stale handle. -/
def isStale : Except DiskError Reply → Bool
  | .error (.staleHandle _) => true
  | _ => false

namespace History

/-- How often a block was checked out and not given back. What is refused because of a stale handle
gives nothing back; everything else does, even if it fails. -/
def count (block : Nat) : History → Int
  | [] => 0
  | (.acquire acquired, .ok _) :: earlier =>
    count block earlier + if acquired = block then 1 else 0
  | (.release handle _ _, r) :: earlier =>
    count block earlier - if handle.block = block ∧ isStale r = false then 1 else 0
  | _ :: earlier => count block earlier

/-- The handles under which a block was checked out since it last was not. -/
def held (block : Nat) : History → List Handle
  | [] => []
  | event :: earlier =>
    if count block (event :: earlier) = 0 then []
    else
      match event with
      | (.acquire acquired, .ok (.handle handle)) =>
        if acquired = block then handle :: held block earlier else held block earlier
      | _ => held block earlier

variable {block : Nat} {handle : Handle} {event : Request × Except DiskError Reply}
  {earlier : History}

theorem of_mem_held (h : handle ∈ held block (event :: earlier)) :
    count block (event :: earlier) ≠ 0 ∧
      (handle ∈ held block earlier ∨ event = (.acquire block, .ok (.handle handle))) := by
  unfold held at h
  split at h
  · cases h
  · next hcount =>
    refine ⟨hcount, ?_⟩
    split at h
    · split at h
      · next hacquired =>
        subst hacquired
        rcases List.mem_cons.mp h with rfl | hmem
        · exact .inr rfl
        · exact .inl hmem
      · exact .inl h
    · exact .inl h

/-- The pins of a pool are those of the history. -/
structure Matches (history : History) (pins : Handle → Nat) : Prop where
  count_eq {handle : Handle} (h : 0 < pins handle) : history.count handle.block = pins handle
  exists_slot {block : Nat} (h : history.count block ≠ 0) : ∃ slot, 0 < pins ⟨block, slot⟩
  of_held {block : Nat} {handle : Handle} (h : handle ∈ history.held block) :
    handle.block = block ∧ 0 < pins handle

theorem matches_nil {pins : Handle → Nat} (h : ∀ handle, pins handle = 0) : Matches [] pins where
  count_eq hpos := by
    rw [h] at hpos
    exact absurd hpos (Nat.lt_irrefl 0)
  exists_slot hcount := absurd rfl hcount
  of_held hmem := nomatch hmem

variable {pins pins' : Handle → Nat}

/-- A request that neither checks out a block nor gives one back. -/
theorem Matches.same (h : Matches earlier pins)
    (hcount : ∀ block, count block (event :: earlier) = count block earlier)
    (hevent : ∀ block handle, event ≠ (.acquire block, .ok (.handle handle))) :
    Matches (event :: earlier) pins where
  count_eq hpos := (hcount _).trans (h.count_eq hpos)
  exists_slot hne := h.exists_slot (hcount _ ▸ hne)
  of_held hmem := h.of_held ((of_mem_held hmem).2.resolve_right (hevent _ _))

/-- A block is checked out. -/
theorem Matches.acquire (h : Matches earlier pins)
    (hpins : pins' = Function.update pins handle (pins handle + 1))
    (hunique : ∀ other, other.block = handle.block → 0 < pins' other → other = handle) :
    Matches ((.acquire handle.block, .ok (.handle handle)) :: earlier) pins' := by
  have hself : pins' handle = pins handle + 1 := by rw [hpins, Function.update_self]
  have hother {other : Handle} (hne : other ≠ handle) : pins' other = pins other := by
    rw [hpins, Function.update_of_ne hne]
  have hle (other : Handle) : pins other ≤ pins' other := by
    by_cases hne : other = handle
    · rw [hne, hself]
      exact Nat.le_succ _
    · rw [hother hne]
  constructor
  case count_eq =>
    intro other hpos
    by_cases hne : other = handle
    · subst hne
      -- With no pin on the block so far, the count is zero as well, because the handle that was
      -- counted would be another one of the same block.
      have hcount : count other.block earlier = pins other := by
        by_cases hzero : count other.block earlier = 0
        · rw [hzero]
          by_contra hpins
          have hheld := h.count_eq (Nat.pos_of_ne_zero fun hz => hpins (congrArg Nat.cast hz.symm))
          omega
        · obtain ⟨slot, hslot⟩ := h.exists_slot hzero
          have hsame := hunique ⟨other.block, slot⟩ rfl (Nat.lt_of_lt_of_le hslot (hle _))
          rw [hsame] at hslot
          exact h.count_eq hslot
      rw [count, if_pos rfl, hcount, hself]
      rfl
    · rw [hother hne] at hpos ⊢
      have hblock : handle.block ≠ other.block := fun hb =>
        hne (hunique other hb.symm (Nat.lt_of_lt_of_le hpos (hle _)))
      rw [count, if_neg hblock, Int.add_zero]
      exact h.count_eq hpos
  case exists_slot =>
    intro block hcount
    by_cases hblock : handle.block = block
    · subst hblock
      exact ⟨handle.slot, hself ▸ Nat.succ_pos _⟩
    · rw [count, if_neg hblock, Int.add_zero] at hcount
      obtain ⟨slot, hslot⟩ := h.exists_slot hcount
      exact ⟨slot, Nat.lt_of_lt_of_le hslot (hle _)⟩
  case of_held =>
    intro block other hmem
    rcases (of_mem_held hmem).2 with hold | hevent
    · exact ⟨(h.of_held hold).1, Nat.lt_of_lt_of_le (h.of_held hold).2 (hle _)⟩
    · cases hevent
      exact ⟨rfl, hself ▸ Nat.succ_pos _⟩

/-- A block is given back, which may have failed. -/
theorem Matches.release (h : Matches earlier pins) {dirty commit : Bool}
    {r : Except DiskError Reply} (hr : isStale r = false)
    (hpos : 0 < pins handle)
    (hpins : pins' = Function.update pins handle (pins handle - 1))
    (hunique : ∀ other, other.block = handle.block → 0 < pins other → other = handle) :
    Matches ((.release handle dirty commit, r) :: earlier) pins' := by
  have hself : pins' handle = pins handle - 1 := by rw [hpins, Function.update_self]
  have hother {other : Handle} (hne : other ≠ handle) : pins' other = pins other := by
    rw [hpins, Function.update_of_ne hne]
  have hcount : count handle.block ((.release handle dirty commit, r) :: earlier) =
      pins' handle := by
    rw [count, if_pos ⟨rfl, hr⟩, h.count_eq hpos, hself]
    omega
  constructor
  case count_eq =>
    intro other hpos'
    by_cases hne : other = handle
    · subst hne
      exact hcount
    · rw [hother hne] at hpos' ⊢
      have hblock : handle.block ≠ other.block := fun hb => hne (hunique other hb.symm hpos')
      rw [count, if_neg fun hb => hblock hb.1, Int.sub_zero]
      exact h.count_eq hpos'
  case exists_slot =>
    intro block hne
    by_cases hblock : handle.block = block
    · subst hblock
      rw [hcount] at hne
      exact ⟨handle.slot, Nat.pos_of_ne_zero fun hzero => hne (congrArg Nat.cast hzero)⟩
    · rw [count, if_neg fun hb => hblock hb.1, Int.sub_zero] at hne
      obtain ⟨slot, hslot⟩ := h.exists_slot hne
      have hdiff : (⟨block, slot⟩ : Handle) ≠ handle := fun he => hblock (by rw [← he])
      exact ⟨slot, by rwa [hother hdiff]⟩
  case of_held =>
    intro block other hmem
    obtain ⟨hne, hold⟩ := of_mem_held hmem
    obtain ⟨rfl, hold⟩ := h.of_held (hold.resolve_right nofun)
    refine ⟨rfl, ?_⟩
    -- The handle given back is held still only if a pin is left.
    by_cases hsame : other = handle
    · subst hsame
      rw [hcount] at hne
      exact Nat.pos_of_ne_zero fun hzero => hne (congrArg Nat.cast hzero)
    · rwa [hother hsame]

end History

/-! ## Requests -/

namespace Pool

variable {δ : Type} [Disk δ] {size : Nat} {state : Pool × δ}

/-- What a request may do to the pins: checking out a block adds one, giving it back through a good
handle takes one, and nothing else changes any. -/
def Moves (size : Nat) (state : Pool × δ) (request : Request) (r : Except DiskError Reply)
    (state' : Pool × δ) : Prop :=
  Tidy size state' ∧
    match request, r with
    | .acquire block, .ok reply => ∃ handle, reply = .handle handle ∧ handle.block = block ∧
      state'.1.pinsOn = Function.update state.1.pinsOn handle (state.1.pinsOn handle + 1)
    | .release handle _ _, r =>
      if 0 < state.1.pinsOn handle then isStale r = false ∧
        state'.1.pinsOn = Function.update state.1.pinsOn handle (state.1.pinsOn handle - 1)
      else isStale r = true ∧ state'.1.pinsOn = state.1.pinsOn
    | _, _ => state'.1.pinsOn = state.1.pinsOn

theorem isStale_of_ofImage {e : DiskError} (h : e.OfImage) : isStale (.error e) = false := by
  cases e <;> first | rfl | exact h.elim

/-- What one request does to the pins. -/
theorem moves_perform (hD : Oblivious δ) (h : Tidy size state) (request : Request) :
    Ends request.perform state (Moves size state request) := by
  -- Only `acquire` and a `release` that is not stale move a pin; all else leaves the pins level.
  cases request with
  | readBlock block =>
    exact (level_readBlock hD h block).bind (fun _ _ hs => hs) fun _ _ hs => hs
  | writeBlock block bytes =>
    exact (level_writeBlock hD h block bytes).bind (fun _ _ hs => hs) fun _ _ hs => hs
  | zeroBlock block =>
    exact (level_writeBlock hD h block _).bind (fun _ _ hs => hs) fun _ _ hs => hs
  | acquire block =>
    refine (grants_acquire hD h block).bind (fun handle s' ⟨hs, hblock, hpins⟩ => ?_)
      fun _ _ hs => hs
    exact ⟨hs, handle, rfl, hblock, hpins⟩
  | data handle =>
    refine ends_bind.mpr (ends_ask.mpr ?_)
    cases BlockCache.data handle state with
    | ok bytes => exact ⟨h, rfl⟩
    | error e => exact ⟨h, rfl⟩
  | update handle change =>
    exact (level_update h handle change).bind (fun _ _ hs => hs) fun _ _ hs => hs
  | release handle dirty commit =>
    by_cases hpos : 0 < state.1.pinsOn handle
    · have hpins {s' : Pool × δ} (hsame : SamePins (state.1.unpin handle.slot) s'.1) :
          s'.1.pinsOn = Function.update state.1.pinsOn handle (state.1.pinsOn handle - 1) :=
        hsame.pinsOn_eq.trans (pinsOn_unpin (bound_of_pinsOn hpos))
      refine (tidy_release hD h hpos dirty commit).bind (fun _ s' ⟨hs, hsame, _⟩ => ?_)
        -- A failing write-back comes after the pin is taken off, so the pins are the same in both
        -- ends.
        fun e s' ⟨hs, hsame, _, hr⟩ => ?_
      · refine ⟨hs, ?_⟩
        dsimp only
        rw [if_pos hpos]
        exact ⟨rfl, hpins hsame⟩
      · refine ⟨hs, ?_⟩
        dsimp only
        rw [if_pos hpos]
        exact ⟨isStale_of_ofImage (hr e rfl), hpins hsame⟩
    · have hrun : (release handle dirty commit).run state =
          .error (.staleHandle handle.block) state :=
        run_release_of_stale (Nat.eq_zero_of_not_pos hpos) dirty commit
      refine (ends_of_run_eq_error (run_bind_of_error hrun _)).mpr ⟨h, ?_⟩
      dsimp only
      rw [if_neg hpos]
      exact ⟨rfl, rfl⟩
  | markDirty block => exact (level_markDirty h block).bind (fun _ _ hs => hs) fun _ _ hs => hs
  | sync => exact (level_sync hD h).bind (fun _ _ hs => hs) fun _ _ hs => hs

/-- The pins stay those of the history. -/
theorem Moves.matches {history : History} {request : Request} {r : Except DiskError Reply}
    {state' : Pool × δ} (h : Tidy size state) (hpins : history.Matches state.1.pinsOn)
    (hmoves : Moves size state request r state') :
    History.Matches ((request, r) :: history) state'.1.pinsOn := by
  obtain ⟨htidy, hmoves⟩ := hmoves
  have hsame (heq : state'.1.pinsOn = state.1.pinsOn)
      (hcount : ∀ block, History.count block ((request, r) :: history) = history.count block)
      (hevent : ∀ block handle, (request, r) ≠ (.acquire block, .ok (.handle handle))) :
      History.Matches ((request, r) :: history) state'.1.pinsOn := by
    rw [heq]
    exact hpins.same hcount hevent
  cases request with
  | acquire block =>
    cases r with
    | error e => exact hsame hmoves (fun _ => rfl) nofun
    | ok reply =>
      obtain ⟨handle, rfl, rfl, heq⟩ := hmoves
      refine hpins.acquire heq fun other hblock hpos => htidy.valid.handle_eq hblock hpos ?_
      rw [heq, Function.update_self]
      exact Nat.succ_pos _
  | release handle dirty commit =>
    dsimp only at hmoves
    split at hmoves
    · next hpos =>
      exact hpins.release hmoves.1 hpos hmoves.2 fun other hblock hother =>
        h.valid.handle_eq hblock hother hpos
    · refine hsame hmoves.2 (fun block => ?_) nofun
      rw [History.count, hmoves.1, if_neg (by simp), Int.sub_zero]
  | readBlock _ => exact hsame hmoves (fun _ => rfl) nofun
  | writeBlock _ _ => exact hsame hmoves (fun _ => rfl) nofun
  | zeroBlock _ => exact hsame hmoves (fun _ => rfl) nofun
  | data _ => exact hsame hmoves (fun _ => rfl) nofun
  | update _ _ => exact hsame hmoves (fun _ => rfl) nofun
  | markDirty _ => exact hsame hmoves (fun _ => rfl) nofun
  | sync => exact hsame hmoves (fun _ => rfl) nofun

end Pool

/-! ## Runs -/

namespace Cache

/-- The states of a cache that requests lead to, each with its history. Between the requests others
may do with the files of the host what they like. -/
inductive Visited (start : Cache × Host) : History → Cache × Host → Prop
  | start : Visited start [] start
  | request {history : History} {state : Cache × Host} (h : Visited start history state)
      (request : Request) :
      Visited start ((request, request.perform.outcome state) :: history)
        (request.perform.stateAfter state)
  | others {history : History} {state : Cache × Host} (h : Visited start history state)
      (host : Host) : Visited start history (state.1, host)

/-- A handle is good: its block is checked out, and its slot is the one bound to the block. -/
def Good (history : History) (pool : Pool) (handle : Handle) : Prop :=
  0 < history.count handle.block ∧ pool.blockAt handle.slot = some handle.block

/-- A pooled cache keeps account of what is checked out. -/
structure Accounted (history : History) (pool : Pool) (state : Cache × Host) : Prop where
  strategy_eq : state.1.strategy = .pooled pool
  /-- The entry of a block has a pin for each time that the block is checked out. -/
  pinsAt_eq {slot block : Nat} (h : pool.blockAt slot = some block) :
    ∃ pins, pool.pinsAt slot = some pins ∧ history.count block = pins
  /-- A block that is checked out has an entry, and only one. -/
  exists_slot {block : Nat} (h : history.count block ≠ 0) :
    ∃ slot, ∀ i, pool.blockAt i = some block ↔ i = slot
  data_isOk_iff (handle : Handle) :
    (BlockCache.data handle state).isOk ↔ Good history pool handle
  release_eq_stale_iff (handle : Handle) (dirty commit : Bool) :
    (BlockCache.release handle dirty commit).outcome state = .error (.staleHandle handle.block) ↔
      ¬ Good history pool handle
  /-- A block that is checked out keeps its handle. -/
  of_held {block : Nat} {handle : Handle} (h : handle ∈ history.held block) :
    handle.block = block ∧ Good history pool handle ∧
      (BlockCache.acquire block).outcome state = .ok handle
  /-- Whatever came of it, giving a block back took one pin. -/
  release_pins {handle : Handle} (h : Good history pool handle) (dirty commit : Bool) :
    Ends (BlockCache.release handle dirty commit) state fun _ state' => ∃ pool',
      state'.1.strategy = .pooled pool' ∧ (pool.unpin handle.slot).SamePins pool'
  /-- If nothing has to be written and marking is allowed, a block can be given back. -/
  release_ok {handle : Handle} (h : Good history pool handle) {dirty : Bool}
    (hd : dirty = true → BlockCache.readOnly state = false) :
    (BlockCache.release handle dirty false).outcome state = .ok ()
  /-- A block that is not checked out has no good handle, and nothing comes of using one. -/
  stale {handle : Handle} (h : history.count handle.block = 0) :
    BlockCache.data handle state = .error (.staleHandle handle.block) ∧
      (∀ change, (BlockCache.update handle change).run state =
        .error (.staleHandle handle.block) state) ∧
      ∀ dirty commit, (BlockCache.release handle dirty commit).run state =
        .error (.staleHandle handle.block) state

theorem good_iff {size : Nat} {history : History} {pool : Pool} {handle : Handle}
    (hv : pool.Valid size) (h : history.Matches pool.pinsOn) :
    Good history pool handle ↔ 0 < pool.pinsOn handle := by
  constructor
  · rintro ⟨hcount, hb⟩
    obtain ⟨slot, hslot⟩ := h.exists_slot (Int.ne_of_gt hcount)
    have hsame : slot = handle.slot := hv.blockAt_inj (Pool.bound_of_pinsOn hslot) hb
    rwa [hsame] at hslot
  · intro hpos
    refine ⟨?_, Pool.bound_of_pinsOn hpos⟩
    rw [h.count_eq hpos]
    exact Int.natCast_pos.mpr hpos

/-- A pool whose pins are those of the history keeps account. -/
theorem accounted_ofState {size : Nat} {history : History} {state : Pool × Device × Host}
    (h : Pool.Tidy size state) (hpins : history.Matches state.1.pinsOn) :
    Accounted history state.1 (ofState state) where
  strategy_eq := rfl
  pinsAt_eq {slot block} hb := by
    let handle : Handle := ⟨block, slot⟩
    have hbound : state.1.blockAt handle.slot = some handle.block := hb
    refine ⟨_, Pool.pinsOn_of_bound hbound, ?_⟩
    by_cases hpos : 0 < state.1.pinsOn ⟨block, slot⟩
    · exact hpins.count_eq hpos
    · by_contra hne
      have hcount : history.count block ≠ 0 := by
        rwa [Nat.eq_zero_of_not_pos hpos] at hne
      obtain ⟨slot', hslot'⟩ := hpins.exists_slot hcount
      obtain rfl : slot' = slot := h.valid.blockAt_inj (Pool.bound_of_pinsOn hslot') hb
      exact hpos hslot'
  exists_slot {block} hcount := by
    obtain ⟨slot, hslot⟩ := hpins.exists_slot hcount
    have hb : state.1.blockAt slot = some block := Pool.bound_of_pinsOn hslot
    exact ⟨slot, fun i => ⟨fun hi => h.valid.blockAt_inj hi hb, fun hi => hi ▸ hb⟩⟩
  data_isOk_iff handle := by
    rw [embeds_ofState.data_eq, good_iff h.valid hpins]
    exact Pool.data_isOk_iff_pinsOn
  release_eq_stale_iff handle dirty commit := by
    rw [(embeds_ofState.release handle dirty commit).outcome_eq, good_iff h.valid hpins]
    constructor
    · intro hr hpos
      have himage := (ends_iff.mp (Pool.tidy_release Device.oblivious h hpos dirty commit)).2.2.2
      exact himage _ hr
    · intro hpos
      have hrun := Pool.run_release_of_stale (Nat.eq_zero_of_not_pos hpos) dirty commit
      exact outcome_of_run_eq_error hrun
  of_held {block handle} hmem := by
    obtain ⟨rfl, hpos⟩ := hpins.of_held hmem
    refine ⟨rfl, (good_iff h.valid hpins).mpr hpos, ?_⟩
    rw [(embeds_ofState.acquire handle.block).outcome_eq]
    exact Pool.outcome_acquire_of_pinsOn h hpos
  release_pins {handle} hgood dirty commit := by
    have hpos := (good_iff h.valid hpins).mp hgood
    refine (embeds_ofState.release handle dirty commit).ends_iff.mpr ?_
    exact (Pool.tidy_release Device.oblivious h hpos dirty commit).mono fun _ s' hs =>
      ⟨s'.1, rfl, hs.2.1⟩
  release_ok {handle} hgood dirty hd := by
    have hpos := (good_iff h.valid hpins).mp hgood
    rw [(embeds_ofState.release handle dirty false).outcome_eq]
    exact (ends_iff.mp (Pool.tidy_release Device.oblivious h hpos dirty false)).2.2.1 rfl hd
  stale {handle} hcount := by
    have hzero : state.1.pinsOn handle = 0 := by
      by_contra hne
      have hheld := hpins.count_eq (Nat.pos_of_ne_zero hne)
      omega
    refine ⟨?_, fun change => ?_, fun dirty commit => ?_⟩
    · rw [embeds_ofState.data_eq]
      exact Pool.data_eq_stale hzero
    · exact (embeds_ofState.update handle change).run_eq_error
        (Pool.run_update_of_stale hzero change)
    · exact (embeds_ofState.release handle dirty commit).run_eq_error
        (Pool.run_release_of_stale hzero dirty commit)

/-- A pooled cache keeps account of what is checked out, in every state that requests lead to. -/
theorem accounted_of_visited {device : Device} {host : Host} {size : Nat} {history : History}
    {state : Cache × Host} (h : Visited (ofPool device size, host) history state) :
    ∃ pool, Accounted history pool state := by
  have hreached : ∃ pool device' host', state = ofState (pool, device', host') ∧
      Pool.Tidy device.blocks (pool, device', host') ∧ history.Matches pool.pinsOn := by
    induction h with
    | start =>
      refine ⟨_, device, host, rfl, ⟨rfl, Pool.valid_ofSize _ _⟩, History.matches_nil fun handle => ?_⟩
      exact Pool.pinsOn_ofSize _ handle
    | request _ request ih =>
      obtain ⟨pool, device', host', rfl, htidy, hpins⟩ := ih
      have hmirror := embeds_ofState.perform request
      have hmoves := ends_iff.mp (Pool.moves_perform Device.oblivious htidy request)
      rw [hmirror.outcome_eq, hmirror.stateAfter_eq]
      exact ⟨_, _, _, rfl, hmoves.1, hmoves.matches htidy hpins⟩
    | others _ host' ih =>
      obtain ⟨pool, device', _, rfl, htidy, hpins⟩ := ih
      exact ⟨pool, device', host', rfl, ⟨htidy.blocks_eq, htidy.valid⟩, hpins⟩
  obtain ⟨pool, device', host', rfl, htidy, hpins⟩ := hreached
  exact ⟨pool, accounted_ofState htidy hpins⟩

/-- The block of a disk of one block, checked out once, after the file was removed. -/
theorem accounted_of_visited_removed :
    let device : Device :=
      ⟨⟨"disk", 512, false, false⟩, ⟨.bare, .sequential ⟨0, 1⟩⟩, false, false⟩
    let host : Host := ⟨[⟨"disk", ⟨Array.replicate 512 0⟩, .readWrite⟩], #[]⟩
    let start := (ofPool device 16, host)
    let history : History := [(.acquire 0, (Request.acquire 0).perform.outcome start)]
    let after := (Request.acquire 0).perform.stateAfter start
    Visited start history (after.1, Host.empty) ∧ history.held 0 = [⟨0, 0⟩] ∧
      (BlockCache.acquire 0).outcome (after.1, Host.empty) = .ok ⟨0, 0⟩ := by
  intro device host start history after
  have hvisited : Visited start history (after.1, Host.empty) :=
    (Visited.start.request (.acquire 0)).others Host.empty
  have hheld : history.held 0 = [⟨0, 0⟩] := by
    have hacquired : (BlockCache.acquire 0).outcome start = .ok ⟨0, 0⟩ := by decide +kernel
    have houtcome : (Request.acquire 0).perform.outcome start = .ok (.handle ⟨0, 0⟩) :=
      outcome_of_run_eq_ok (run_bind_of_ok (run_eq_ok_of_outcome hacquired) _)
    simp only [history, houtcome]
    rfl
  obtain ⟨pool, haccounted⟩ := accounted_of_visited hvisited
  have hmem : (⟨0, 0⟩ : Handle) ∈ history.held 0 := by
    rw [hheld]
    exact List.mem_singleton_self _
  exact ⟨hvisited, hheld, (haccounted.of_held hmem).2.2⟩

end Cache

end Diskette
