import Diskette.Action

/-!
# What actions end with

`Action.Ends act s Q` says of an action run from `s` that what comes of it, a value or an error, and
the state it leaves satisfy `Q`. An action always ends, so nothing is left open: `Q` speaks of both
outcomes.

* `ends_bind`, `ends_ask`, `ends_attempt`, `ends_zoom`: what each way of building an action does.
* `Ends.mono`, `Ends.and`: what is known of an end can be weakened and combined.
* `Preserves`: what holds before an action and after it. `Fails`: it comes to an error.
* `Ends.of_ok`, `Ends.of_error`: from the end of an action to one of its outcomes, and back.
-/

namespace Diskette.Action

variable {σ τ α β : Type}

/-- What comes of running `act` from `s`, and the state it leaves, satisfy `Q`. -/
def Ends (act : Action σ α) (s : σ) (Q : Except DiskError α → σ → Prop) : Prop :=
  match act.run s with
  | .ok a s' => Q (.ok a) s'
  | .error e s' => Q (.error e) s'

/-- What comes of running `act` from `s`, without the state. -/
def outcome (act : Action σ α) (s : σ) : Except DiskError α :=
  match act.run s with
  | .ok a _ => .ok a
  | .error e _ => .error e

/-- The state that running `act` from `s` leaves. -/
def stateAfter (act : Action σ α) (s : σ) : σ :=
  match act.run s with
  | .ok _ s' => s'
  | .error _ s' => s'

variable {act : Action σ α} {s s' : σ} {Q R : Except DiskError α → σ → Prop}

theorem Ends.mono (h : Ends act s Q) (hQR : ∀ r s', Q r s' → R r s') : Ends act s R := by
  unfold Ends at h ⊢
  cases hr : act.run s with
  | ok a s' => rw [hr] at h; exact hQR _ _ h
  | error e s' => rw [hr] at h; exact hQR _ _ h

theorem Ends.and (hQ : Ends act s Q) (hR : Ends act s R) :
    Ends act s fun r s' => Q r s' ∧ R r s' := by
  unfold Ends at hQ hR ⊢
  cases hr : act.run s with
  | ok a s' => rw [hr] at hQ hR; exact ⟨hQ, hR⟩
  | error e s' => rw [hr] at hQ hR; exact ⟨hQ, hR⟩

theorem Ends.of_ok {a : α} (h : Ends act s Q) (hr : act.run s = .ok a s') : Q (.ok a) s' := by
  unfold Ends at h
  rwa [hr] at h

theorem Ends.of_error {e : DiskError} (h : Ends act s Q) (hr : act.run s = .error e s') :
    Q (.error e) s' := by
  unfold Ends at h
  rwa [hr] at h

theorem ends_iff : Ends act s Q ↔ Q (act.outcome s) (act.stateAfter s) := by
  unfold Ends outcome stateAfter
  cases act.run s <;> rfl

theorem outcome_of_run_eq_ok {a : α} (h : act.run s = .ok a s') : act.outcome s = .ok a := by
  simp [outcome, h]

theorem outcome_of_run_eq_error {e : DiskError} (h : act.run s = .error e s') :
    act.outcome s = .error e := by
  simp [outcome, h]

theorem run_eq_ok_of_outcome {a : α} (h : act.outcome s = .ok a) :
    act.run s = .ok a (act.stateAfter s) := by
  unfold outcome stateAfter at *
  cases hr : act.run s with
  | ok a' s' =>
    rw [hr] at h
    rw [Except.ok.inj h]
  | error e s' =>
    rw [hr] at h
    cases h

theorem run_eq_error_of_outcome {e : DiskError} (h : act.outcome s = .error e) :
    act.run s = .error e (act.stateAfter s) := by
  unfold outcome stateAfter at *
  cases hr : act.run s with
  | ok a s' =>
    rw [hr] at h
    cases h
  | error e' s' =>
    rw [hr] at h
    rw [Except.error.inj h]

theorem ends_of_run_eq_ok {a : α} (h : act.run s = .ok a s') : Ends act s Q ↔ Q (.ok a) s' := by
  unfold Ends
  rw [h]

theorem ends_of_run_eq_error {e : DiskError} (h : act.run s = .error e s') :
    Ends act s Q ↔ Q (.error e) s' := by
  unfold Ends
  rw [h]

/-- Runs that come to the same. -/
theorem ends_congr {other : Action σ α} (h : act.run s = other.run s') :
    Ends act s Q ↔ Ends other s' Q := by
  unfold Ends
  rw [h]

/-- An action that can only end with a value does end with one. -/
theorem exists_ok_of_ends (h : Ends act s fun r s' => ∃ a, r = .ok a ∧ Q r s') :
    ∃ a s', act.run s = .ok a s' ∧ Q (.ok a) s' := by
  unfold Ends at h
  cases hr : act.run s with
  | ok a s' =>
    rw [hr] at h
    obtain ⟨_, _, h⟩ := h
    exact ⟨a, s', rfl, h⟩
  | error e s' =>
    rw [hr] at h
    obtain ⟨_, he, _⟩ := h
    cases he

/-- An action and what follows it: the second half starts where the first one ended with a value. -/
theorem Ends.bind {f : α → Action σ β} {R : Except DiskError β → σ → Prop} (h : Ends act s Q)
    (hok : ∀ a s', Q (.ok a) s' → Ends (f a) s' R)
    (herror : ∀ e s', Q (.error e) s' → R (.error e) s') : Ends (act >>= f) s R := by
  unfold Ends at h ⊢
  rw [EStateM.run_bind]
  cases hr : act.run s with
  | ok a s' => rw [hr] at h; exact hok a s' h
  | error e s' => rw [hr] at h; exact herror e s' h

/-- From a state that satisfies `Inv` the action leaves one, whatever comes of it. -/
def Preserves (Inv : σ → Prop) (act : Action σ α) : Prop :=
  ∀ ⦃s⦄, Inv s → Ends act s fun _ s' => Inv s'

section

variable {Inv : σ → Prop}

theorem preserves_pure (a : α) : Preserves Inv (pure a) := fun _ h => h

theorem preserves_ask (query : σ → Except DiskError α) : Preserves Inv (ask query) := by
  intro s h
  unfold Ends
  rw [run_ask]
  cases query s <;> exact h

theorem Preserves.bind {f : α → Action σ β} (h : Preserves Inv act)
    (hf : ∀ a, Preserves Inv (f a)) : Preserves Inv (act >>= f) := fun _ hs =>
  (h hs).bind (fun a _ hs' => hf a hs') fun _ _ hs' => hs'

end

/-- The action comes to an error. -/
def Fails (act : Action σ α) (s : σ) : Prop := ∃ e, act.outcome s = .error e

theorem fails_iff : Fails act s ↔ Ends act s fun r _ => ∃ e, r = .error e := by
  rw [ends_iff]
  rfl

theorem fails_throw (e : DiskError) (s : σ) : Fails (throw e : Action σ α) s := ⟨e, rfl⟩

theorem fails_ask {query : σ → Except DiskError α} {e : DiskError} (h : query s = .error e) :
    Fails (ask query) s := by
  refine ⟨e, ?_⟩
  unfold outcome
  rw [run_ask, h]

/-- Nothing comes after a failure. -/
theorem Fails.bind (h : Fails act s) (f : α → Action σ β) : Fails (act >>= f) s :=
  fails_iff.mpr ((fails_iff.mp h).bind (fun _ _ ⟨_, he⟩ => nomatch he) fun e _ _ => ⟨e, rfl⟩)

theorem Ends.fails_bind {f : α → Action σ β} (h : Ends act s Q)
    (hf : ∀ a s', Q (.ok a) s' → Fails (f a) s') : Fails (act >>= f) s :=
  fails_iff.mpr (h.bind (fun a s' hq => fails_iff.mp (hf a s' hq)) fun e _ _ => ⟨e, rfl⟩)

theorem stateAfter_bind_pure (f : α → β) :
    (do let a ← act; pure (f a) : Action σ β).stateAfter s = act.stateAfter s := by
  unfold stateAfter
  rw [EStateM.run_bind]
  cases act.run s <;> rfl

theorem outcome_onSecond {act : Action τ α} {t : τ} :
    (onSecond act).outcome (s, t) = act.outcome t := by
  unfold outcome onSecond
  rw [run_zoom]
  cases act.run t <;> rfl

theorem stateAfter_onSecond {act : Action τ α} {t : τ} :
    (onSecond act).stateAfter (s, t) = (s, act.stateAfter t) := by
  unfold stateAfter onSecond
  rw [run_zoom]
  cases act.run t <;> rfl

/-! ## Known outcomes -/

theorem run_bind_of_ok {a : α} (h : act.run s = .ok a s') (f : α → Action σ β) :
    (act >>= f).run s = (f a).run s' := by
  rw [EStateM.run_bind, h]

theorem run_bind_of_error {e : DiskError} (h : act.run s = .error e s') (f : α → Action σ β) :
    (act >>= f).run s = .error e s' := by
  rw [EStateM.run_bind, h]

/-- Both halves of an action that ends with a value do. -/
theorem exists_of_run_bind {f : α → Action σ β} {b : β} (h : (act >>= f).run s = .ok b s') :
    ∃ a middle, act.run s = .ok a middle ∧ (f a).run middle = .ok b s' := by
  rw [EStateM.run_bind] at h
  cases hr : act.run s with
  | ok a middle => rw [hr] at h; exact ⟨a, middle, rfl, h⟩
  | error e middle => rw [hr] at h; cases h

theorem run_ask_eq_ok_iff {query : σ → Except DiskError α} {a : α} :
    (ask query).run s = .ok a s' ↔ query s = .ok a ∧ s' = s := by
  rw [run_ask]
  cases query s <;> simp [eq_comm]

theorem run_ofExcept_eq_ok_iff {r : Except DiskError α} {a : α} :
    (ofExcept r).run s = .ok a s' ↔ r = .ok a ∧ s' = s := by
  rw [run_ofExcept]
  cases r <;> simp [eq_comm]

theorem run_ask_of_ok {query : σ → Except DiskError α} {a : α} (h : query s = .ok a) :
    (ask query).run s = .ok a s := by
  rw [run_ask, h]

theorem run_ask_of_error {query : σ → Except DiskError α} {e : DiskError} (h : query s = .error e) :
    (ask query).run s = .error e s := by
  rw [run_ask, h]

theorem run_onSecond_of_ok {act : Action τ α} {t t' : τ} {a : α} (h : act.run t = .ok a t') :
    (onSecond act).run (s, t) = .ok a (s, t') := by
  unfold onSecond
  rw [run_zoom]
  simp only [h]

theorem run_onSecond_of_error {act : Action τ α} {t t' : τ} {e : DiskError}
    (h : act.run t = .error e t') : (onSecond act).run (s, t) = .error e (s, t') := by
  unfold onSecond
  rw [run_zoom]
  simp only [h]

/-! ## Building blocks -/

@[simp] theorem ends_pure {a : α} : Ends (pure a) s Q ↔ Q (.ok a) s := Iff.rfl

@[simp] theorem ends_throw {e : DiskError} : Ends (throw e) s Q ↔ Q (.error e) s := Iff.rfl

@[simp] theorem ends_bind {f : α → Action σ β} {Q : Except DiskError β → σ → Prop} :
    Ends (act >>= f) s Q ↔ Ends act s fun r s' =>
      match r with
      | .ok a => Ends (f a) s' Q
      | .error e => Q (.error e) s' := by
  unfold Ends
  simp only [EStateM.run, bind, EStateM.bind]
  cases act s <;> rfl

@[simp] theorem ends_modify {f : σ → σ} {Q : Except DiskError Unit → σ → Prop} :
    Ends (modify f) s Q ↔ Q (.ok ()) (f s) := Iff.rfl

@[simp] theorem ends_ofExcept {r : Except DiskError α} : Ends (ofExcept r) s Q ↔ Q r s := by
  cases r <;> rfl

@[simp] theorem ends_ask {query : σ → Except DiskError α} :
    Ends (ask query) s Q ↔ Q (query s) s := by
  unfold Ends
  rw [run_ask]
  cases query s <;> rfl

@[simp] theorem ends_attempt {Q : Except DiskError (Except DiskError α) → σ → Prop} :
    Ends (attempt act) s Q ↔ Ends act s fun r s' => Q (.ok r) s' := by
  unfold Ends
  rw [run_attempt]
  cases act.run s <;> rfl

@[simp] theorem ends_zoom {split : σ → τ × (τ → σ)} {act : Action τ α} :
    Ends (zoom split act) s Q ↔ Ends act (split s).1 fun r part => Q r ((split s).2 part) := by
  unfold Ends
  rw [run_zoom]
  cases act.run (split s).1 <;> rfl

@[simp] theorem ends_onFirst {act : Action σ α} {t : τ} {Q : Except DiskError α → σ × τ → Prop} :
    Ends (onFirst act) (s, t) Q ↔ Ends act s fun r s' => Q r (s', t) := ends_zoom

@[simp] theorem ends_onSecond {act : Action τ α} {t : τ} {Q : Except DiskError α → σ × τ → Prop} :
    Ends (onSecond act) (s, t) Q ↔ Ends act t fun r t' => Q r (s, t') := ends_zoom

end Diskette.Action
