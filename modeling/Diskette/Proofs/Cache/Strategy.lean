import Diskette.Cache
import Diskette.Proofs.Agree
import Mathlib.Logic.Relation

/-!
# Caches of one strategy

A cache does what its pool or its mapping does in front of the device. So what is known of the pools
and mappings holds of the caches.

* `Mirrors`: an action on one kind of state does what another does on another kind.
* `Embeds.perform`: a request to a cache is the request to its pool or its mapping.
* `exists_pool_of_run`: a run of a pooled cache is a run of its pool.
-/

namespace Diskette

open Diskette.Action

namespace Action

variable {σ τ α β : Type} {place : σ → τ} {act : Action σ α} {act' : Action τ α}

/-- `act'` does on the states of the form `place s` what `act` does on `s`. -/
def Mirrors (place : σ → τ) (act : Action σ α) (act' : Action τ α) : Prop :=
  ∀ s, act'.run (place s) = match act.run s with
    | .ok a s' => .ok a (place s')
    | .error e s' => .error e (place s')

theorem mirrors_pure (a : α) : Mirrors place (pure a) (pure a) := fun _ => rfl

theorem mirrors_ofExcept (r : Except DiskError α) :
    Mirrors place (Action.ofExcept r) (Action.ofExcept r) := by
  intro s
  cases r <;> rfl

theorem mirrors_ask {query : σ → Except DiskError α} {query' : τ → Except DiskError α}
    (h : ∀ s, query' (place s) = query s) : Mirrors place (ask query) (ask query') := by
  intro s
  rw [run_ask, run_ask, h]
  cases query s <;> rfl

theorem Mirrors.attempt (h : Mirrors place act act') :
    Mirrors place (Action.attempt act) (Action.attempt act') := by
  intro s
  rw [run_attempt, run_attempt, h]
  cases act.run s <;> rfl

theorem Mirrors.bind {f : α → Action σ β} {f' : α → Action τ β} (h : Mirrors place act act')
    (hf : ∀ a, Mirrors place (f a) (f' a)) : Mirrors place (act >>= f) (act' >>= f') := by
  intro s
  rw [EStateM.run_bind, EStateM.run_bind, h]
  cases act.run s with
  | ok a s' => exact hf a s'
  | error e s' => rfl

theorem Mirrors.outcome_eq (h : Mirrors place act act') (s : σ) :
    act'.outcome (place s) = act.outcome s := by
  unfold outcome
  rw [h]
  cases act.run s <;> rfl

theorem Mirrors.stateAfter_eq (h : Mirrors place act act') (s : σ) :
    act'.stateAfter (place s) = place (act.stateAfter s) := by
  unfold stateAfter
  rw [h]
  cases act.run s <;> rfl

theorem Mirrors.run_eq_error (h : Mirrors place act act') {s s' : σ} {e : DiskError}
    (hr : act.run s = .error e s') : act'.run (place s) = .error e (place s') := by
  rw [h, hr]

theorem Mirrors.ends_iff (h : Mirrors place act act') {s : σ} {Q : Except DiskError α → τ → Prop} :
    Ends act' (place s) Q ↔ Ends act s fun r s' => Q r (place s') := by
  unfold Ends
  rw [h]
  cases act.run s <;> rfl

/-- Actions that agree are mirrored by actions that agree. -/
theorem Parallel.mirrored {σ' τ' : Type} {R : σ → σ' → Prop} {place' : σ' → τ'}
    {other : Action σ' α} {other' : Action τ' α} (h : Parallel R act other)
    (hact : Mirrors place act act') (hother : Mirrors place' other other') :
    Parallel (Relation.Map R place place') act' other' := by
  rintro _ _ ⟨s, t, hst, rfl, rfl⟩
  obtain ⟨houtcome, hafter⟩ := agree_iff.mp (h hst)
  rw [agree_iff, hact.outcome_eq, hother.outcome_eq, hact.stateAfter_eq, hother.stateAfter_eq]
  exact ⟨houtcome, _, _, hafter, rfl, rfl⟩

end Action

namespace Cache

/-- The cache of a pool and a device. -/
def ofState : Pool × Device × Host → Cache × Host
  | (pool, device, host) => (⟨.pooled pool, device⟩, host)

/-- The cache of a mapping and a device. -/
def ofMapped : Mapping × Device × Host → Cache × Host
  | (mapping, device, host) => (⟨.mapped mapping, device⟩, host)

/-- What a cache of the form `place s` can do is what `s` can do. -/
structure Embeds [Medium] {σ : Type} [BlockCache σ] (place : σ → Cache × Host) : Prop where
  run {α : Type} (act : ∀ {κ : Type} [BlockCache κ], Action κ α) :
    Mirrors place act (Cache.run act)
  data_eq (handle : Handle) (s : σ) : BlockCache.data handle (place s) = BlockCache.data handle s

theorem embeds_ofState [Medium] : Embeds ofState where
  run act := by
    rintro ⟨pool, device, host⟩
    unfold EStateM.run
    simp only [ofState, Cache.run, runPooled]
    generalize act (pool, device, host) = r
    cases r <;> rfl
  data_eq _ _ := rfl

theorem embeds_ofMapped [Medium] : Embeds ofMapped where
  run act := by
    rintro ⟨mapping, device, host⟩
    unfold EStateM.run
    simp only [ofMapped, Cache.run, runMapped]
    generalize act (mapping, device, host) = r
    cases r <;> rfl
  data_eq _ _ := rfl

section

variable [Medium] {σ : Type} [BlockCache σ] {place : σ → Cache × Host}

theorem Embeds.acquire (h : Embeds place) (block : Nat) :
    Mirrors place (BlockCache.acquire block) (BlockCache.acquire block) :=
  h.run (BlockCache.acquire block)

theorem Embeds.update (h : Embeds place) (handle : Handle) (change : Block → Block) :
    Mirrors place (BlockCache.update handle change) (BlockCache.update handle change) :=
  h.run (BlockCache.update handle change)

theorem Embeds.release (h : Embeds place) (handle : Handle) (dirty commit : Bool) :
    Mirrors place (BlockCache.release handle dirty commit)
      (BlockCache.release handle dirty commit) :=
  h.run (BlockCache.release handle dirty commit)

theorem Embeds.markDirty (h : Embeds place) (block : Nat) :
    Mirrors place (BlockCache.markDirty block) (BlockCache.markDirty block) :=
  h.run (BlockCache.markDirty block)

theorem Embeds.sync (h : Embeds place) : Mirrors place BlockCache.sync BlockCache.sync :=
  h.run BlockCache.sync

theorem Embeds.readBlock (h : Embeds place) (block : Nat) :
    Mirrors place (BlockCache.readBlock block) (BlockCache.readBlock block) :=
  (h.acquire block).bind fun handle =>
    (mirrors_ask (h.data_eq handle)).attempt.bind fun _ =>
      (h.release handle false false).attempt.bind fun _ => mirrors_ofExcept _

theorem Embeds.writeBlock (h : Embeds place) (block : Nat) (bytes : Block) :
    Mirrors place (BlockCache.writeBlock block bytes) (BlockCache.writeBlock block bytes) :=
  (h.acquire block).bind fun handle =>
    (h.update handle fun _ => bytes).attempt.bind fun copied =>
      (h.release handle copied.isOk false).attempt.bind fun _ => mirrors_ofExcept _

/-- A request to a cache is the request to what it is made of. -/
theorem Embeds.perform (h : Embeds place) (request : Request) :
    Mirrors place request.perform request.perform := by
  cases request with
  | readBlock block => exact (h.readBlock block).bind fun _ => mirrors_pure _
  | writeBlock block bytes => exact (h.writeBlock block bytes).bind fun _ => mirrors_pure _
  | zeroBlock block => exact (h.writeBlock block _).bind fun _ => mirrors_pure _
  | acquire block => exact (h.acquire block).bind fun _ => mirrors_pure _
  | data handle => exact (mirrors_ask (h.data_eq handle)).bind fun _ => mirrors_pure _
  | update handle change => exact (h.update handle change).bind fun _ => mirrors_pure _
  | release handle dirty commit =>
    exact (h.release handle dirty commit).bind fun _ => mirrors_pure _
  | markDirty block => exact (h.markDirty block).bind fun _ => mirrors_pure _
  | sync => exact h.sync.bind fun _ => mirrors_pure _

end

variable {start : Pool × Device × Host} {original : Nat → Block} {ledger : Ledger}

/-- Requests to a pooled cache are those to its pool. -/
theorem performAll_ofState (requests : List Request) :
    ∀ state, Request.performAll requests (ofState state) =
      ((Request.performAll requests state).1, ofState (Request.performAll requests state).2) := by
  induction requests with
  | nil => exact fun _ => rfl
  | cons request rest ih =>
    intro state
    have hmirror := embeds_ofState.perform request
    simp only [Request.performAll, hmirror.outcome_eq, hmirror.stateAfter_eq, ih]

theorem after_ofState (state : Pool × Device × Host) (request : Request)
    (r : Except DiskError Reply) :
    ledger.after (ofState state) request r = ledger.after state request r := by
  cases request <;> rfl

/-- A run of a pooled cache is a run of its pool. -/
theorem exists_pool_of_run {after : Cache × Host}
    (h : Run (ofState start) original after ledger) :
    ∃ state, after = ofState state ∧ Run start original state ledger := by
  induction h with
  | start => exact ⟨start, rfl, .start⟩
  | step _ request hflag ih =>
    obtain ⟨state, rfl, hrun⟩ := ih
    have hmirror := embeds_ofState.perform request
    rw [hmirror.outcome_eq, hmirror.stateAfter_eq, after_ofState] at hflag
    rw [hmirror.outcome_eq, hmirror.stateAfter_eq, after_ofState]
    exact ⟨_, rfl, hrun.step request hflag⟩

end Cache

end Diskette
