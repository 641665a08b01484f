import Diskette.Error

/-!
# Actions

An `Action σ α` reads and changes a state `σ` and returns an `α` or fails with a `DiskError`. A
failure does not undo what was done before it: the state that was reached stays.

* `run_ofExcept`, `run_ask`: a result, or a question about the state, leaves the state alone.
* `run_zoom`: an action on a part of a state changes that part only.
* `run_attempt`: an attempt never fails and returns what came of the action.
-/

namespace Diskette

/-- An action on a state `σ` that returns an `α` or fails. -/
abbrev Action (σ α : Type) : Type := EStateM DiskError σ α

namespace Action

variable {σ τ α : Type}

/-- The action that returns the result `r`, or fails with it. -/
@[inline] def ofExcept (r : Except DiskError α) : Action σ α := fun s =>
  match r with
  | .ok a => .ok a s
  | .error e => .error e s

/-- The answer to a question about the state. -/
@[inline] def ask (query : σ → Except DiskError α) : Action σ α := fun s =>
  match query s with
  | .ok a => .ok a s
  | .error e => .error e s

/-- Runs `act` on a part of the state: `split` takes the part out and says how to put one back. -/
@[inline] def zoom (split : σ → τ × (τ → σ)) (act : Action τ α) : Action σ α := fun s =>
  match split s with
  | (part, restore) =>
    match act part with
    | .ok a part => .ok a (restore part)
    | .error e part => .error e (restore part)

/-- Runs an action on the first half of a pair. -/
@[inline] def onFirst (act : Action σ α) : Action (σ × τ) α :=
  zoom (fun (s, t) => (s, fun s => (s, t))) act

/-- Runs an action on the second half of a pair. -/
@[inline] def onSecond (act : Action τ α) : Action (σ × τ) α :=
  zoom (fun (s, t) => (t, fun t => (s, t))) act

/-- Runs `act` and returns what came of it, a failure included. -/
@[inline] def attempt (act : Action σ α) : Action σ (Except DiskError α) := fun s =>
  match act s with
  | .ok a s => .ok (.ok a) s
  | .error e s => .ok (.error e) s

@[simp] theorem run_ofExcept (r : Except DiskError α) (s : σ) :
    (ofExcept r).run s = match r with
      | .ok a => .ok a s
      | .error e => .error e s := rfl

@[simp] theorem run_ask (query : σ → Except DiskError α) (s : σ) :
    (ask query).run s = match query s with
      | .ok a => .ok a s
      | .error e => .error e s := rfl

@[simp] theorem run_zoom (split : σ → τ × (τ → σ)) (act : Action τ α) (s : σ) :
    (zoom split act).run s = match act.run (split s).1 with
      | .ok a part => .ok a ((split s).2 part)
      | .error e part => .error e ((split s).2 part) := rfl

@[simp] theorem run_attempt (act : Action σ α) (s : σ) :
    (attempt act).run s = match act.run s with
      | .ok a s => .ok (.ok a) s
      | .error e s => .ok (.error e) s := rfl

end Action

end Diskette
