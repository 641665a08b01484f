import Diskette.Proofs.Fork.Parallel

/-!
# Tasks

What the users of a cache do with a volume, in any order: they read and replace blocks, load and
store bitmaps, read, write and free forks, and sync. Two caches of different kinds that agree on
blocks and on syncs agree on all of that.

* `Task.perform`, `Task.performAll`: what tasks do to a cache of any kind.
* `Task.parallel_perform`, `Task.performAll_agree`: caches that agree on every task.
-/

namespace Diskette

open Diskette.Action

/-- What the user of a cache can do. -/
inductive Task where
  | readBlock (block : Nat)
  | writeBlock (block : Nat) (bytes : Block)
  | zeroBlock (block : Nat)
  | sync
  | loadBitmap (start blocks : Nat)
  | writeBitmap (bitmap : Bitmap) (start : Nat)
  | normalize (descriptor : Descriptor) (fork : Fork)
  | readIndex (level root len offset : Nat)
  | readFork (descriptor : Descriptor) (fork : Fork)
  | writeFork (data : ByteArray) (bitmap : Bitmap)
  | writeExtended (data resource : ByteArray) (bitmap : Bitmap)
  | freeFork (descriptor : Descriptor) (bitmap : Bitmap)

/-- What comes of a task. -/
inductive Answer where
  | done
  | block (bytes : Block)
  | bytes (bytes : ByteArray)
  | bitmap (bitmap : Bitmap)
  | descriptor (descriptor : Descriptor)
  /-- What came of writing a fork, and the bitmap that it left. -/
  | written (result : Except DiskError Descriptor) (bitmap : Bitmap)
  /-- What came of freeing a fork, and the bitmap that it left. -/
  | freed (result : Except DiskError Unit) (bitmap : Bitmap)

/-- Runs an action on a state that `u` is put beside: what comes of it, and what is beside the state
then. -/
def Action.withBeside {σ υ α : Type} (act : Action (σ × υ) α) (u : υ) :
    Action σ (Except DiskError α × υ) := fun s =>
  match act (s, u) with
  | .ok a (s, u) => .ok (.ok a, u) s
  | .error e (s, u) => .ok (.error e, u) s

theorem Action.ends_withBeside {σ υ α : Type} {act : Action (σ × υ) α} {s : σ} {u : υ}
    {Q : Except DiskError (Except DiskError α × υ) → σ → Prop} :
    Ends (act.withBeside u) s Q ↔ Ends act (s, u) fun r t => Q (.ok (r, t.2)) t.1 := by
  unfold Ends EStateM.run withBeside
  cases act (s, u) <;> rfl

/-- Actions that agree agree also on what is left beside the state. -/
theorem Action.Parallel.withBeside {σ τ υ α : Type} {R : σ → τ → Prop} {act : Action (σ × υ) α}
    {act' : Action (τ × υ) α} (h : Parallel (Beside R) act act') (u : υ) :
    Parallel R (act.withBeside u) (act'.withBeside u) := by
  intro s t hst
  have hstart : Beside R (s, u) (t, u) := ⟨hst, rfl⟩
  unfold Agree EStateM.run Action.withBeside
  dsimp only
  rcases (h hstart).cases with ⟨a, p, q, hs, ht, hpq⟩ | ⟨e, p, q, hs, ht, hpq⟩
  · unfold EStateM.run at hs ht
    rw [hs, ht]
    exact ⟨Prod.ext rfl hpq.2.symm, hpq.1⟩
  · unfold EStateM.run at hs ht
    rw [hs, ht]
    exact ⟨Prod.ext rfl hpq.2.symm, hpq.1⟩

section

variable {κ κ' : Type} [BlockCache κ] [BlockCache κ'] {R : κ → κ' → Prop}

/-- Does a task with a cache. -/
def Task.perform : Task → Action κ Answer
  | readBlock block => do
    let bytes ← BlockCache.readBlock block
    return .block bytes
  | writeBlock block bytes => do
    BlockCache.writeBlock block bytes
    return .done
  | zeroBlock block => do
    BlockCache.zeroBlock block
    return .done
  | sync => do
    BlockCache.sync
    return .done
  | loadBitmap start blocks => do
    let bitmap ← Bitmap.load start blocks
    return .bitmap bitmap
  | writeBitmap bitmap start => do
    bitmap.write start
    return .done
  | normalize descriptor fork => do
    let descriptor ← Diskette.normalize descriptor fork
    return .descriptor descriptor
  | readIndex level root len offset => do
    let bytes ← Diskette.readIndex level root len offset
    return .bytes bytes
  | readFork descriptor fork => do
    let bytes ← Diskette.readFork descriptor fork
    return .bytes bytes
  | writeFork data bitmap => do
    let written ← (Diskette.writeFork data).withBeside bitmap
    return .written written.1 written.2
  | writeExtended data resource bitmap => do
    let written ← (Diskette.writeExtended data resource).withBeside bitmap
    return .written written.1 written.2
  | freeFork descriptor bitmap => do
    let freed ← (Diskette.freeFork descriptor).withBeside bitmap
    return .freed freed.1 freed.2

/-- Does tasks with a cache one after the other, whatever comes of them: the answers, and the state
that is left. -/
def Task.performAll : List Task → κ → List (Except DiskError Answer) × κ
  | [], s => ([], s)
  | task :: rest, s =>
    let (answers, s') := performAll rest (task.perform.stateAfter s)
    (task.perform.outcome s :: answers, s')

/-- Caches that agree on blocks and on syncs agree on every task. -/
theorem Task.parallel_perform (hR : StoresAgree R)
    (hsync : Parallel R BlockCache.sync BlockCache.sync) (task : Task) :
    Parallel R task.perform task.perform := by
  cases task with
  | readBlock block => exact (hR.readBlock block).bind fun _ => parallel_pure _
  | writeBlock block bytes => exact (hR.writeBlock block bytes).bind fun _ => parallel_pure _
  | zeroBlock block => exact (hR.writeBlock block _).bind fun _ => parallel_pure _
  | sync => exact hsync.bind fun _ => parallel_pure _
  | loadBitmap start blocks =>
    exact (Bitmap.parallel_load hR start blocks).bind fun _ => parallel_pure _
  | writeBitmap bitmap start =>
    exact (Bitmap.parallel_write hR bitmap start).bind fun _ => parallel_pure _
  | normalize descriptor fork =>
    exact (parallel_normalize hR descriptor fork).bind fun _ => parallel_pure _
  | readIndex level root len offset =>
    exact (parallel_readIndex hR level root len offset).bind fun _ => parallel_pure _
  | readFork descriptor fork =>
    exact (parallel_readFork hR descriptor fork).bind fun _ => parallel_pure _
  | writeFork data bitmap =>
    exact ((parallel_writeFork hR data).withBeside bitmap).bind fun _ => parallel_pure _
  | writeExtended data resource bitmap =>
    exact ((parallel_writeExtended hR data resource).withBeside bitmap).bind fun _ =>
      parallel_pure _
  | freeFork descriptor bitmap =>
    exact ((parallel_freeFork hR descriptor).withBeside bitmap).bind fun _ => parallel_pure _

/-- They give the same answers to any sequence of tasks. -/
theorem Task.performAll_agree (hR : StoresAgree R)
    (hsync : Parallel R BlockCache.sync BlockCache.sync) (tasks : List Task) :
    ∀ {s : κ} {t : κ'}, R s t → (performAll tasks t).1 = (performAll tasks s).1 ∧
      R (performAll tasks s).2 (performAll tasks t).2 := by
  induction tasks with
  | nil => exact fun h => ⟨rfl, h⟩
  | cons task rest ih =>
    intro s t h
    obtain ⟨houtcome, hafter⟩ := agree_iff.mp (parallel_perform hR hsync task h)
    obtain ⟨hanswers, hlast⟩ := ih hafter
    exact ⟨congrArg₂ List.cons houtcome hanswers, hlast⟩

end

end Diskette
