import Diskette.Cache.Basic
import Diskette.Proofs.Ends
import Mathlib.Data.Set.Insert
import Mathlib.Logic.Function.Basic

/-!
# Requests to a cache

A user of a cache sends requests, in any order. A `Ledger` keeps what the user may expect of the
blocks after them: the bytes stored last, and the blocks with a change made through a handle that
was not recorded since, neither by giving the block back as changed nor by marking it. A change has
to be recorded while its block is checked out: a `Run` is a sequence of requests that keeps to it.

* `Run.step`: one more request, whatever comes of it.
* `Request.perform`, `Request.performAll`: what requests do to a cache of any kind.
-/

namespace Diskette

/-- What a user can ask of a cache. -/
inductive Request where
  | readBlock (block : Nat)
  | writeBlock (block : Nat) (bytes : Block)
  | zeroBlock (block : Nat)
  | acquire (block : Nat)
  | data (handle : Handle)
  | update (handle : Handle) (change : Block → Block)
  | release (handle : Handle) (dirty commit : Bool)
  | markDirty (block : Nat)
  | sync

/-- What a cache answers. -/
inductive Reply where
  | done
  | handle (handle : Handle)
  | bytes (bytes : Block)

/-- What the user of a cache may expect of its blocks. -/
structure Ledger where
  /-- The bytes stored last in each block. -/
  contents : Nat → Block
  /-- The blocks with a change that was not recorded. -/
  unflagged : Set Nat

namespace Ledger

/-- The bytes of a block were replaced. -/
def replace (ledger : Ledger) (block : Nat) (bytes : Block) : Ledger :=
  ⟨Function.update ledger.contents block bytes, ledger.unflagged \ {block}⟩

/-- The bytes of a block were changed through a handle. -/
def change (ledger : Ledger) (block : Nat) (change : Block → Block) : Ledger :=
  ⟨Function.update ledger.contents block (change (ledger.contents block)),
    insert block ledger.unflagged⟩

/-- The changes of a block were recorded. -/
def flag (ledger : Ledger) (block : Nat) : Ledger :=
  ⟨ledger.contents, ledger.unflagged \ {block}⟩

end Ledger

section

variable {κ : Type} [BlockCache κ]

/-- Sends a request to a cache. -/
def Request.perform : Request → Action κ Reply
  | readBlock block => do
    let bytes ← BlockCache.readBlock block
    return .bytes bytes
  | writeBlock block bytes => do
    BlockCache.writeBlock block bytes
    return .done
  | zeroBlock block => do
    BlockCache.zeroBlock block
    return .done
  | acquire block => do
    let handle ← BlockCache.acquire block
    return .handle handle
  | data handle => do
    let bytes ← Action.ask (BlockCache.data handle)
    return .bytes bytes
  | update handle change => do
    BlockCache.update handle change
    return .done
  | release handle dirty commit => do
    BlockCache.release handle dirty commit
    return .done
  | markDirty block => do
    BlockCache.markDirty block
    return .done
  | sync => do
    BlockCache.sync
    return .done

/-- Sends requests to a cache one after the other, whatever comes of them: the answers, and the state
that is left. -/
def Request.performAll : List Request → κ → List (Except DiskError Reply) × κ
  | [], s => ([], s)
  | request :: rest, s =>
    let (answers, s') := performAll rest (request.perform.stateAfter s)
    (request.perform.outcome s :: answers, s')

/-- The ledger after a request that was sent to a cache in the state `s` and came to `r`. What
fails stores nothing. A block given back as changed has its changes recorded even when it could not
be written to the disk, but not through a stale handle and not when writing is refused. -/
def Ledger.after (ledger : Ledger) (s : κ) (request : Request) (r : Except DiskError Reply) :
    Ledger :=
  match request with
  | .writeBlock block bytes => if r.isOk then ledger.replace block bytes else ledger
  | .zeroBlock block => if r.isOk then ledger.replace block (Bytes.zero 512) else ledger
  | .update handle change => if r.isOk then ledger.change handle.block change else ledger
  | .release handle true _ =>
    if (BlockCache.data handle s).isOk ∧ BlockCache.readOnly s = false then
      ledger.flag handle.block
    else ledger
  | .markDirty block => if r.isOk then ledger.flag block else ledger
  | _ => ledger

/-- Some handle of the block is good. -/
def BlockCache.CheckedOut (s : κ) (block : Nat) : Prop :=
  ∃ slot, (BlockCache.data ⟨block, slot⟩ s).isOk

/-- The states that requests lead to from `start`, each with its ledger. `original` is what the
blocks hold at first. A block with a change that was not recorded is always checked out. -/
inductive Run (start : κ) (original : Nat → Block) : κ → Ledger → Prop
  | start : Run start original start ⟨original, ∅⟩
  | step {s : κ} {ledger : Ledger} (h : Run start original s ledger) (request : Request)
    (hflag : ∀ block ∈ (ledger.after s request (request.perform.outcome s)).unflagged,
      BlockCache.CheckedOut (request.perform.stateAfter s) block) :
    Run start original (request.perform.stateAfter s)
      (ledger.after s request (request.perform.outcome s))

end

end Diskette
