import Diskette.Proofs.Pool.Actions
import Diskette.Proofs.Requests

/-!
# Runs of a pool

A pool in front of a disk shows what the ledger says, after every run of requests.

* `Shows.step`: one request, whatever comes of it.
* `shows_of_run`: a run.
-/

namespace Diskette.Pool

open Diskette.Action

variable {δ : Type} [Disk δ] {size : Nat} {readOnly : Bool} {Holds : δ → (Nat → Block) → Prop}
  {state : Pool × δ} {ledger : Ledger}

omit [Disk δ] in
theorem data_isOk_iff {handle : Handle} :
    (data handle state).isOk ↔ ∃ pins, state.1.CheckedOut handle pins := by
  obtain ⟨pool, disk⟩ := state
  simp only [checkedOut_iff]
  unfold data
  cases he : pool.checkedOut handle with
  | error e => simp [he, Except.map, Except.isOk, Except.toBool]
  | ok entry => simp [he, Except.map, Except.isOk, Except.toBool]

theorem release_pins {shown : Nat → Block} {unmarked : Set Nat}
    (hD : FaithfulDisk size readOnly Holds) (h : Shows size readOnly Holds state shown unmarked)
    {handle : Handle} {pins : Nat} (hc : state.1.CheckedOut handle pins) (dirty commit : Bool) :
    Ends (release handle dirty commit) state fun _ s' =>
      SamePins (state.1.unpin handle.slot) s'.1 := by
  obtain ⟨pool, disk⟩ := state
  obtain ⟨entry, he, -⟩ := checkedOut_iff.mp hc
  unfold release
  simp only [ends_bind, ends_ask, he, Except.map, ends_attempt, modifyPool, ends_modify,
    ends_ofExcept]
  refine (settle_ends hD h hc.2.1 dirty commit).mono ?_
  rintro r s' ⟨hsame, -⟩
  refine ⟨fun i => ?_, fun i => ?_⟩
  · rw [blockAt_unpin, blockAt_unpin]
    exact hsame.blockAt_eq i
  · rw [pinsAt_unpin, pinsAt_unpin, hsame.pinsAt_eq]

/-- The last pin of a block is given back only if its changes are recorded. -/
private theorem not_mem_of_checkedOut_one {shown : Nat → Block} {unmarked : Set Nat}
    (hD : FaithfulDisk size readOnly Holds) (h : Shows size readOnly Holds state shown unmarked)
    {handle : Handle} (hc : state.1.CheckedOut handle 1) (dirty commit : Bool)
    (hflag : ∀ block ∈ unmarked,
      BlockCache.CheckedOut ((release handle dirty commit).stateAfter state) block) :
    handle.block ∉ unmarked := by
  intro hu
  obtain ⟨slot, hok⟩ := hflag _ hu
  obtain ⟨pins, hpos, hb, hp⟩ := data_isOk_iff.mp hok
  obtain ⟨hblocks, hpins⟩ := ends_iff.mp (release_pins hD h hc dirty commit)
  rw [hblocks, blockAt_unpin] at hb
  obtain rfl := h.valid.blockAt_inj hc.2.1 hb
  rw [hpins, pinsAt_unpin, if_pos rfl, hc.2.2, Option.map_some, Option.some.injEq] at hp
  omega

private theorem after_release_of_stale {handle : Handle}
    (hc : ¬ ∃ pins, state.1.CheckedOut handle pins) {dirty commit : Bool}
    {r : Except DiskError Reply} :
    ledger.after state (.release handle dirty commit) r = ledger := by
  cases dirty with
  | false => rfl
  | true => exact if_neg fun hd => hc (data_isOk_iff.mp hd.1)

private theorem after_release (hD : FaithfulDisk size readOnly Holds)
    (h : Shows size readOnly Holds state ledger.contents ledger.unflagged) {handle : Handle}
    (hc : ∃ pins, state.1.CheckedOut handle pins) {dirty commit : Bool}
    {r : Except DiskError Reply} :
    ledger.after state (.release handle dirty commit) r =
      ⟨ledger.contents, unmarkedAfter readOnly dirty handle.block ledger.unflagged⟩ := by
  have hreadOnly : BlockCache.readOnly state = readOnly := by
    obtain ⟨base, hbase, -⟩ := h.caches
    exact hD.readOnly_eq hbase
  have hdata : (BlockCache.data handle state).isOk := data_isOk_iff.mpr hc
  cases dirty with
  | false => simp [Ledger.after, unmarkedAfter]
  | true =>
    simp only [Ledger.after, hreadOnly, hdata, unmarkedAfter, true_and]
    split
    · rfl
    · rfl

/-- A block is given back, and the last pin only when its changes are recorded. -/
private theorem release_shows (hD : FaithfulDisk size readOnly Holds)
    (h : Shows size readOnly Holds state ledger.contents ledger.unflagged) (handle : Handle)
    (dirty commit : Bool)
    (hlast : dirty = false → state.1.CheckedOut handle 1 → handle.block ∉ ledger.unflagged) :
    Ends (release handle dirty commit) state fun _ s' => ∀ reply : Except DiskError Reply,
      Shows size readOnly Holds s' (ledger.after state (.release handle dirty commit) reply).contents
        (ledger.after state (.release handle dirty commit) reply).unflagged := by
  refine (release_ends hD h handle dirty commit hlast).mono ?_
  rintro r s' (⟨hstale, rfl, -⟩ | ⟨hc, hs', -⟩) reply
  · rw [after_release_of_stale (fun hc => hstale _ hc.choose_spec)]
    exact h
  · rw [after_release hD h hc]
    exact hs'

/-- One request, whatever comes of it. -/
theorem Shows.step (hD : FaithfulDisk size readOnly Holds)
    (h : Shows size readOnly Holds state ledger.contents ledger.unflagged) (request : Request)
    (hflag : ∀ block ∈ (ledger.after state request (request.perform.outcome state)).unflagged,
      BlockCache.CheckedOut (request.perform.stateAfter state) block) :
    Shows size readOnly Holds (request.perform.stateAfter state)
      (ledger.after state request (request.perform.outcome state)).contents
      (ledger.after state request (request.perform.outcome state)).unflagged := by
  -- What a request does to the ledger depends on its reply, so each case is settled on the reply
  -- and the state together.
  suffices hends : Ends (request.perform (κ := Pool × δ)) state fun r s' =>
      Shows size readOnly Holds s' (ledger.after state request r).contents
        (ledger.after state request r).unflagged from ends_iff.mp hends
  cases request with
  | readBlock block =>
    refine ends_bind.mpr ((readBlock_ends hD h block).mono ?_)
    rintro (e | bytes) s' hs'
    · exact hs'.1
    · exact hs'.1
  | writeBlock block bytes =>
    refine ends_bind.mpr ((writeBlock_ends hD h block bytes).mono ?_)
    rintro (e | ⟨⟩) s' hs'
    · exact hs'
    · exact hs'
  | zeroBlock block =>
    refine ends_bind.mpr ((writeBlock_ends hD h block (Bytes.zero 512)).mono ?_)
    rintro (e | ⟨⟩) s' hs'
    · exact hs'
    · exact hs'
  | acquire block =>
    refine ends_bind.mpr ((acquire_ends hD h block).mono ?_)
    rintro (e | handle) s' hs'
    · exact hs'.1
    · exact hs'.1
  | data handle =>
    refine ends_bind.mpr (ends_ask.mpr ?_)
    cases BlockCache.data handle state with
    | error e => exact h
    | ok bytes => exact h
  | update handle change =>
    refine ends_bind.mpr ((update_ends hD h handle change).mono ?_)
    rintro (e | ⟨⟩) s' hs'
    · obtain rfl := hs'
      exact h
    · exact hs'.2.2
  | release handle dirty commit =>
    -- A release drops the last pin of unrecorded changes only if the block stays checked out after
    -- the whole request, which is the `release` with its reply thrown away.
    have hlast (hd : dirty = false) (hc : state.1.CheckedOut handle 1) :
        handle.block ∉ ledger.unflagged := by
      subst hd
      have hstate : (Request.release handle false commit).perform.stateAfter state =
          (release handle false commit).stateAfter state := stateAfter_bind_pure _
      refine not_mem_of_checkedOut_one hD h hc false commit fun block hu => ?_
      rw [← hstate]
      exact hflag block hu
    refine ends_bind.mpr ((release_shows hD h handle dirty commit hlast).mono ?_)
    rintro (e | ⟨⟩) s' hs'
    · exact hs' _
    · exact hs' _
  | markDirty block =>
    refine ends_bind.mpr ((markDirty_ends hD h block).mono ?_)
    rintro (e | ⟨⟩) s' hs'
    · obtain rfl := hs'
      exact h
    · exact hs'
  | sync =>
    refine ends_bind.mpr ((sync_ends hD h).mono ?_)
    rintro (e | ⟨⟩) s' hs'
    · exact hs'.1
    · exact hs'.1

/-- A pool shows the contents of the ledger after every run. -/
theorem shows_of_run {disk : δ} {original : Nat → Block} (hD : FaithfulDisk size readOnly Holds)
    (h : Holds disk original) {count : Nat}
    (hr : Run (ofSize count, disk) original state ledger) :
    Shows size readOnly Holds state ledger.contents ledger.unflagged := by
  induction hr with
  | start => exact shows_ofSize h count
  | step _ request hflag ih => exact ih.step hD request hflag

end Diskette.Pool
