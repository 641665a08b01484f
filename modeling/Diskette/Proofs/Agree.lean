import Diskette.Proofs.Requests

/-!
# Actions that agree

`Action.Agree act s act' t Q`: run from `s` and from `t`, two actions on two kinds of state come to
the same, a value or an error, and the states that they leave are related by `Q`. Two caches that
agree on what a cache can do agree on every request.

* `Agree.bind`, `agree_ask`, `Agree.attempt`, `agree_onSecond`: the ways of building an action.
* `Parallel`: actions that agree in related states and leave them related.
* `Alternates`: two kinds of cache that agree in related states.
* `Alternates.perform`, `Alternates.performAll`: they agree on every request.
-/

namespace Diskette

namespace Action

variable {σ τ α β : Type} {act : Action σ α} {act' : Action τ α} {s : σ} {t : τ}
  {Q R : Except DiskError α → σ → τ → Prop}

/-- Both actions come to the same, and leave states that are related by `Q`. -/
def Agree (act : Action σ α) (s : σ) (act' : Action τ α) (t : τ)
    (Q : Except DiskError α → σ → τ → Prop) : Prop :=
  match act.run s, act'.run t with
  | .ok a s', .ok a' t' => a = a' ∧ Q (.ok a) s' t'
  | .error e s', .error e' t' => e = e' ∧ Q (.error e) s' t'
  | _, _ => False

theorem agree_iff : Agree act s act' t Q ↔ act'.outcome t = act.outcome s ∧
    Q (act.outcome s) (act.stateAfter s) (act'.stateAfter t) := by
  unfold Agree outcome stateAfter
  cases act.run s <;> cases act'.run t <;> simp [eq_comm]

/-- Actions that do the same from these states. -/
theorem agree_congr {other : Action σ α} {other' : Action τ α} {s' : σ} {t' : τ}
    (hs : act.run s = other.run s') (ht : act'.run t = other'.run t') :
    Agree act s act' t Q ↔ Agree other s' other' t' Q := by
  unfold Agree
  rw [hs, ht]

theorem Agree.mono (h : Agree act s act' t Q) (hQR : ∀ r s' t', Q r s' t' → R r s' t') :
    Agree act s act' t R :=
  agree_iff.mpr ((agree_iff.mp h).imp_right (hQR _ _ _))

theorem agree_pure {a : α} (h : Q (.ok a) s t) : Agree (pure a) s (pure a) t Q := ⟨rfl, h⟩

theorem agree_throw {e : DiskError} (h : Q (.error e) s t) :
    Agree (throw e) s (throw e) t Q := ⟨rfl, h⟩

theorem agree_ofExcept {r : Except DiskError α} (h : Q r s t) :
    Agree (ofExcept r) s (ofExcept r) t Q := by
  cases r with
  | ok a => exact ⟨rfl, h⟩
  | error e => exact ⟨rfl, h⟩

theorem agree_ask {query : σ → Except DiskError α} {query' : τ → Except DiskError α}
    (hq : query' t = query s) (h : Q (query s) s t) : Agree (ask query) s (ask query') t Q := by
  unfold Agree
  rw [run_ask, run_ask, hq]
  cases hr : query s with
  | ok a => exact ⟨rfl, hr ▸ h⟩
  | error e => exact ⟨rfl, hr ▸ h⟩

theorem agree_modify {f : σ → σ} {f' : τ → τ} {Q : Except DiskError Unit → σ → τ → Prop}
    (h : Q (.ok ()) (f s) (f' t)) : Agree (modify f) s (modify f') t Q := ⟨rfl, h⟩

/-- An action on a part that both states share. -/
theorem agree_onSecond {υ : Type} {part : Action υ α} {u : υ}
    {Q : Except DiskError α → σ × υ → τ × υ → Prop}
    (h : Ends part u fun r u' => Q r (s, u') (t, u')) :
    Agree (onSecond part) (s, u) (onSecond part) (t, u) Q := by
  unfold Ends at h
  unfold Agree onSecond
  rw [run_zoom, run_zoom]
  dsimp only
  cases hr : part.run u with
  | ok a u' => rw [hr] at h; exact ⟨rfl, h⟩
  | error e u' => rw [hr] at h; exact ⟨rfl, h⟩

/-- Actions that agree both come to a value or both to an error. -/
theorem Agree.cases (h : Agree act s act' t Q) :
    (∃ a s' t', act.run s = .ok a s' ∧ act'.run t = .ok a t' ∧ Q (.ok a) s' t') ∨
      ∃ e s' t', act.run s = .error e s' ∧ act'.run t = .error e t' ∧ Q (.error e) s' t' := by
  unfold Agree at h
  cases hs : act.run s with
  | ok a s' =>
    cases ht : act'.run t with
    | ok a' t' =>
      rw [hs, ht] at h
      obtain ⟨rfl, hq⟩ := h
      exact .inl ⟨a, s', t', rfl, rfl, hq⟩
    | error e t' =>
      rw [hs, ht] at h
      exact h.elim
  | error e s' =>
    cases ht : act'.run t with
    | ok a' t' =>
      rw [hs, ht] at h
      exact h.elim
    | error e' t' =>
      rw [hs, ht] at h
      obtain ⟨rfl, hq⟩ := h
      exact .inr ⟨e, s', t', rfl, rfl, hq⟩

theorem Agree.attempt {Q : Except DiskError (Except DiskError α) → σ → τ → Prop}
    (h : Agree act s act' t fun r s' t' => Q (.ok r) s' t') :
    Agree (Action.attempt act) s (Action.attempt act') t Q := by
  rcases h.cases with ⟨a, s', t', hs, ht, hq⟩ | ⟨e, s', t', hs, ht, hq⟩
  · unfold Agree
    rw [run_attempt, run_attempt, hs, ht]
    exact ⟨rfl, hq⟩
  · unfold Agree
    rw [run_attempt, run_attempt, hs, ht]
    exact ⟨rfl, hq⟩

theorem Agree.bind {f : α → Action σ β} {f' : α → Action τ β}
    {R : Except DiskError β → σ → τ → Prop} (h : Agree act s act' t Q)
    (hok : ∀ a s' t', Q (.ok a) s' t' → Agree (f a) s' (f' a) t' R)
    (herror : ∀ e s' t', Q (.error e) s' t' → R (.error e) s' t') :
    Agree (act >>= f) s (act' >>= f') t R := by
  rcases h.cases with ⟨a, s', t', hs, ht, hq⟩ | ⟨e, s', t', hs, ht, hq⟩
  · exact (agree_congr (run_bind_of_ok hs f) (run_bind_of_ok ht f')).mpr (hok a s' t' hq)
  · unfold Agree
    rw [EStateM.run_bind, EStateM.run_bind, hs, ht]
    exact ⟨rfl, herror e s' t' hq⟩

/-- The same when one relation holds all along. -/
theorem Agree.andThen {R : σ → τ → Prop} {f : α → Action σ β} {f' : α → Action τ β}
    (h : Agree act s act' t fun _ => R)
    (hf : ∀ a s' t', R s' t' → Agree (f a) s' (f' a) t' fun _ => R) :
    Agree (act >>= f) s (act' >>= f') t fun _ => R :=
  h.bind hf fun _ _ _ h => h

/-! ## The same in all related states -/

/-- From states related by `R` both actions come to the same and leave states related by `R`. -/
def Parallel (R : σ → τ → Prop) (act : Action σ α) (act' : Action τ α) : Prop :=
  ∀ ⦃s t⦄, R s t → Agree act s act' t fun _ => R

section

variable {R : σ → τ → Prop}

theorem parallel_pure (a : α) : Parallel R (pure a) (pure a) :=
  fun _ _ h => agree_pure h

theorem parallel_throw (e : DiskError) :
    Parallel R (throw e : Action σ α) (throw e : Action τ α) := fun _ _ h => agree_throw h

theorem parallel_ofExcept (r : Except DiskError α) : Parallel R (ofExcept r) (ofExcept r) :=
  fun _ _ h => agree_ofExcept h

theorem parallel_ask {query : σ → Except DiskError α} {query' : τ → Except DiskError α}
    (hq : ∀ ⦃s t⦄, R s t → query' t = query s) : Parallel R (ask query) (ask query') :=
  fun _ _ h => agree_ask (hq h) h

theorem parallel_modify {f : σ → σ} {f' : τ → τ} (hf : ∀ ⦃s t⦄, R s t → R (f s) (f' t)) :
    Parallel R (modify f) (modify f') := fun _ _ h => agree_modify (hf h)

theorem Parallel.bind {f : α → Action σ β} {f' : α → Action τ β} (h : Parallel R act act')
    (hf : ∀ a, Parallel R (f a) (f' a)) : Parallel R (act >>= f) (act' >>= f') :=
  fun _ _ hs => (h hs).andThen fun a _ _ hs => hf a hs

theorem Parallel.attempt (h : Parallel R act act') :
    Parallel R (Action.attempt act) (Action.attempt act') :=
  fun _ _ hs => (h hs).attempt

/-- An action agrees with itself. -/
theorem Preserves.parallel {Inv : σ → Prop} (h : Preserves Inv act) :
    Parallel (fun s t => t = s ∧ Inv s) act act := by
  rintro s _ ⟨rfl, hs⟩
  exact agree_iff.mpr ⟨rfl, rfl, ends_iff.mp (h hs)⟩

/-- On a part of both states. -/
theorem Parallel.zoom {σ' τ' : Type} {S : σ' → τ' → Prop} {split : σ' → σ × (σ → σ')}
    {split' : τ' → τ × (τ → τ')} (h : Parallel R act act')
    (hpart : ∀ {s t}, S s t → R (split s).1 (split' t).1)
    (hrestore : ∀ {s t p q}, S s t → R p q → S ((split s).2 p) ((split' t).2 q)) :
    Parallel S (Action.zoom split act) (Action.zoom split' act') := by
  intro s t hst
  unfold Agree
  rw [run_zoom, run_zoom]
  rcases (h (hpart hst)).cases with ⟨a, p, q, hs, ht, hpq⟩ | ⟨e, p, q, hs, ht, hpq⟩
  · rw [hs, ht]
    exact ⟨rfl, hrestore hst hpq⟩
  · rw [hs, ht]
    exact ⟨rfl, hrestore hst hpq⟩

/-- The two sides are related and the rest of the state is the same. -/
def Beside {υ : Type} (R : σ → τ → Prop) (s : σ × υ) (t : τ × υ) : Prop := R s.1 t.1 ∧ t.2 = s.2

theorem Parallel.onFirst {υ : Type} (h : Parallel R act act') :
    Parallel (Beside (υ := υ) R) (Action.onFirst act) (Action.onFirst act') :=
  h.zoom (fun hst => hst.1) fun hst hpq => ⟨hpq, hst.2⟩

end

end Action

open Diskette.Action

/-! ## Caches that agree -/

section

variable {κ κ' : Type} [BlockCache κ] [BlockCache κ']

/-- In related states the two kinds of cache agree, and the states stay related. -/
structure Alternates (R : κ → κ' → Prop) : Prop where
  acquire {s : κ} {t : κ'} (h : R s t) (block : Nat) :
    Agree (BlockCache.acquire block) s (BlockCache.acquire block) t fun _ => R
  data_eq {s : κ} {t : κ'} (h : R s t) (handle : Handle) :
    BlockCache.data handle t = BlockCache.data handle s
  update {s : κ} {t : κ'} (h : R s t) (handle : Handle) (change : Block → Block) :
    Agree (BlockCache.update handle change) s (BlockCache.update handle change) t fun _ => R
  release {s : κ} {t : κ'} (h : R s t) (handle : Handle) (dirty commit : Bool) :
    Agree (BlockCache.release handle dirty commit) s (BlockCache.release handle dirty commit) t
      fun _ => R
  markDirty {s : κ} {t : κ'} (h : R s t) (block : Nat) :
    Agree (BlockCache.markDirty block) s (BlockCache.markDirty block) t fun _ => R
  sync {s : κ} {t : κ'} (h : R s t) : Agree BlockCache.sync s BlockCache.sync t fun _ => R

variable {R : κ → κ' → Prop} {s : κ} {t : κ'}

theorem Alternates.readBlock (hR : Alternates R) (h : R s t) (block : Nat) :
    Agree (BlockCache.readBlock block) s (BlockCache.readBlock block) t fun _ => R := by
  refine (hR.acquire h block).andThen fun handle s t h => ?_
  have hdata : Agree (ask (BlockCache.data handle)) s (ask (BlockCache.data handle)) t fun _ => R :=
    agree_ask (hR.data_eq h handle) h
  refine hdata.attempt.andThen fun _ s t h => ?_
  exact (hR.release h handle false false).attempt.andThen fun _ _ _ h => agree_ofExcept h

theorem Alternates.writeBlock (hR : Alternates R) (h : R s t) (block : Nat) (bytes : Block) :
    Agree (BlockCache.writeBlock block bytes) s (BlockCache.writeBlock block bytes) t
      fun _ => R := by
  refine (hR.acquire h block).andThen fun handle s t h => ?_
  refine (hR.update h handle fun _ => bytes).attempt.andThen fun copied s t h => ?_
  exact (hR.release h handle copied.isOk false).attempt.andThen fun _ _ _ h => agree_ofExcept h

/-- Both caches give the same reply to a request. -/
theorem Alternates.perform (hR : Alternates R) (h : R s t) (request : Request) :
    Agree request.perform s request.perform t fun _ => R := by
  have hreply {α : Type} {act : Action κ α} {act' : Action κ' α} (f : α → Reply)
      (ha : Agree act s act' t fun _ => R) :
      Agree (do let a ← act; pure (f a)) s (do let a ← act'; pure (f a)) t fun _ => R :=
    ha.andThen fun _ _ _ h => agree_pure h
  cases request with
  | readBlock block => exact hreply _ (hR.readBlock h block)
  | writeBlock block bytes => exact hreply _ (hR.writeBlock h block bytes)
  | zeroBlock block => exact hreply _ (hR.writeBlock h block _)
  | acquire block => exact hreply _ (hR.acquire h block)
  | data handle => exact hreply _ (agree_ask (hR.data_eq h handle) h)
  | update handle change => exact hreply _ (hR.update h handle change)
  | release handle dirty commit => exact hreply _ (hR.release h handle dirty commit)
  | markDirty block => exact hreply _ (hR.markDirty h block)
  | sync => exact hreply _ (hR.sync h)

/-- Both caches give the same answers to any sequence of requests. -/
theorem Alternates.performAll (hR : Alternates R) (requests : List Request) :
    ∀ {s : κ} {t : κ'}, R s t →
      (Request.performAll requests t).1 = (Request.performAll requests s).1 ∧
        R (Request.performAll requests s).2 (Request.performAll requests t).2 := by
  induction requests with
  | nil => exact fun h => ⟨rfl, h⟩
  | cons request rest ih =>
    intro s t h
    obtain ⟨houtcome, hafter⟩ := agree_iff.mp (hR.perform h request)
    obtain ⟨hanswers, hlast⟩ := ih hafter
    exact ⟨congrArg₂ List.cons houtcome hanswers, hlast⟩

end

end Diskette
