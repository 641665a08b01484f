import Diskette.Proofs.Fork.Steps

/-!
# Writes that are refused

A write of a fork that fails gives back what it took, whatever the store does. And it does fail on a
store that refuses to replace any block: the first data block and the key block are always written.

* `writePlain_refused`, `writeBoth_refused`: nothing is written without replacing a block.
* `writeFork_refused`, `writeExtended_refused`: writes to a store that refuses them.
-/

namespace Diskette

open Diskette.Action

variable {κ : Type} [BlockStore κ]

/-- The store replaces no block. -/
def Refuses (store : κ) : Prop := ∀ block data, Fails (BlockStore.writeBlock block data) store

namespace Draft

variable {draft : Draft κ} {store : κ} {data : ByteArray}

omit [BlockStore κ] in
theorem takeBlock_store (draft : Draft κ) :
    Ends takeBlock draft fun _ after => after.store = draft.store :=
  ends_iff.mpr (stateAfter_takeBlock draft).1

theorem putBlock_refused (h : Refuses draft.store) (block : Nat) (data : Block) :
    Fails (putBlock block data) draft :=
  fails_iff.mpr (ends_zoom.mpr (fails_iff.mp (h block data)))

/-- The first subtree of a fork has at least one block that has to be written. -/
theorem writeSubtree_refused (blocks level : Nat) (h : Refuses draft.store) :
    Fails (writeSubtree data blocks level 0) draft := by
  induction level generalizing draft with
  | zero =>
    unfold writeSubtree
    rw [if_neg (fun hfirst => hfirst.1 rfl)]
    refine (takeBlock_store draft).fails_bind fun block after hstore => ?_
    exact (putBlock_refused (hstore ▸ h) _ _).bind _
  | succ level ih =>
    unfold writeSubtree
    dsimp only
    rw [if_neg (fun hfirst => hfirst.1 rfl)]
    refine (takeBlock_store draft).fails_bind fun key after hstore => ?_
    have hafter : Refuses after.store := hstore ▸ h
    generalize (min (spanOf (level + 1)) (blocks - 0) + (spanOf level - 1)) / spanOf level = count
    cases count with
    | zero => exact (putBlock_refused hafter _ _).bind _
    | succ count => exact ((ih hafter).bind _).bind _

theorem writePlain_refused (data : ByteArray) (h : Refuses draft.store) :
    Fails (writePlain data) draft := by
  unfold writePlain
  split
  · exact fails_throw _ draft
  · exact (writeSubtree_refused _ _ h).bind _

theorem writeBoth_refused (data resource : ByteArray) (h : Refuses draft.store) :
    Fails (writeBoth data resource) draft :=
  (takeBlock_store draft).fails_bind fun _ _ hstore =>
    (writePlain_refused data (hstore ▸ h)).bind _

omit [BlockStore κ] in
theorem commit_fails {write : Action (Draft κ) Descriptor} {bitmap : Bitmap}
    (h : Fails write ⟨store, bitmap, []⟩) : Fails (commit write) (store, bitmap) := by
  obtain ⟨e, he⟩ := h
  refine ⟨e, ?_⟩
  unfold outcome EStateM.run commit at *
  dsimp only
  cases hw : write ⟨store, bitmap, []⟩ with
  | ok descriptor draft =>
    rw [hw] at he
    cases he
  | error e' draft =>
    rw [hw] at he
    exact he

end Draft

variable {store : κ}

/-- A fork is not written to a store that refuses it, and takes no block. -/
theorem writeFork_refused (h : Refuses store) (data : ByteArray) (bitmap : Bitmap) :
    Fails (writeFork data) (store, bitmap) ∧
      bitmap.Alike ((writeFork data).stateAfter (store, bitmap)).2 := by
  have hfails : Fails (writeFork data) (store, bitmap) :=
    Draft.commit_fails (Draft.writePlain_refused data h)
  exact ⟨hfails, Draft.alike_of_fails (Draft.steps_writePlain data) hfails⟩

theorem writeExtended_refused (h : Refuses store) (data resource : ByteArray) (bitmap : Bitmap) :
    Fails (writeExtended data resource) (store, bitmap) ∧
      bitmap.Alike ((writeExtended data resource).stateAfter (store, bitmap)).2 := by
  have hfails : Fails (writeExtended data resource) (store, bitmap) :=
    Draft.commit_fails (Draft.writeBoth_refused data resource h)
  exact ⟨hfails, Draft.alike_of_fails (Draft.steps_writeBoth data resource) hfails⟩

end Diskette
