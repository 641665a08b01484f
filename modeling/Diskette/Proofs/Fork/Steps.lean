import Diskette.Fork.Writing
import Diskette.Proofs.Bitmap.Allocator
import Diskette.Proofs.BlockArray

/-!
# The steps of a write

Writing a fork takes blocks from the bitmap, one after the other, and writes blocks that it took
before. It does nothing else, on any store and whatever comes of it, so what is kept by these two
steps is kept by every write. A write that fails then releases all that it took.

* `Steps`: the drafts that are reached by such steps.
* `steps_writePlain`, `steps_writeBoth`: writes are made of them.
* `Steps.exists_took`, `Steps.exists_demands`: what steps do to the bitmap.
* `Steps.exists_contents`: what they do to a store that behaves as an array.
* `of_commit_eq_ok`, `of_commit_eq_error`: what a write leaves when it is done.
-/

namespace Diskette.Draft

open Diskette.Action

variable {κ : Type} [BlockStore κ] {draft middle draft' : Draft κ} {data : ByteArray}

/-- The drafts that are reached by taking blocks and by writing blocks that were taken. -/
inductive Steps (draft : Draft κ) : Draft κ → Prop
  | refl : Steps draft draft
  | take {middle : Draft κ} (h : Steps draft middle) : Steps draft (takeBlock.stateAfter middle)
  | put {middle : Draft κ} (h : Steps draft middle) {block : Nat} (hb : block ∈ middle.taken)
    (data : Block) : Steps draft ((putBlock block data).stateAfter middle)

/-! ## One step -/

omit [BlockStore κ] in
/-- What taking a block comes to. -/
theorem takeBlock_cases (draft : Draft κ) :
    (∃ block after, draft.bitmap.alloc = (some block, after) ∧
      takeBlock.run draft = .ok block ⟨draft.store, after, block :: draft.taken⟩) ∨
    (draft.bitmap.alloc = (none, draft.bitmap) ∧ takeBlock.run draft = .error .diskFull draft) := by
  obtain ⟨store, bitmap, taken⟩ := draft
  unfold EStateM.run takeBlock
  cases ha : bitmap.alloc with
  | mk found after =>
    cases found with
    | some block => exact .inl ⟨block, after, rfl, by simp only [ha]⟩
    | none =>
      obtain rfl := Bitmap.alloc_eq_none ha
      exact .inr ⟨rfl, by simp only [ha]⟩

theorem stateAfter_putBlock (draft : Draft κ) (block : Nat) (data : Block) :
    (putBlock block data).stateAfter draft =
      { draft with store := (BlockStore.writeBlock block data).stateAfter draft.store } := by
  unfold stateAfter putBlock
  rw [run_zoom]
  cases (BlockStore.writeBlock block data).run draft.store <;> rfl

omit [BlockStore κ] in
theorem taken_subset_takeBlock (draft : Draft κ) :
    draft.taken ⊆ (takeBlock.stateAfter draft).taken := by
  unfold stateAfter
  rcases takeBlock_cases draft with ⟨block, after, -, hrun⟩ | ⟨-, hrun⟩
  · rw [hrun]
    exact List.subset_cons_self block draft.taken
  · rw [hrun]
    exact fun _ hb => hb

/-! ## Writes are made of steps -/

theorem Steps.taken_subset (h : Steps draft draft') : draft.taken ⊆ draft'.taken := by
  induction h with
  | refl => exact fun _ hb => hb
  | @take middle _ ih => exact fun _ hb => taken_subset_takeBlock middle (ih hb)
  | put _ _ data ih =>
    rw [stateAfter_putBlock]
    exact ih

theorem Steps.trans (h : Steps draft middle) (h' : Steps middle draft') : Steps draft draft' := by
  induction h' with
  | refl => exact h
  | take _ ih => exact ih.take
  | put _ hb data ih => exact ih.put hb data

/-- A block that was taken is one of those taken. -/
theorem steps_takeBlock (draft : Draft κ) :
    Ends takeBlock draft fun r draft' =>
      Steps draft draft' ∧ ∀ block, r = .ok block → block ∈ draft'.taken := by
  refine ends_iff.mpr ⟨.take .refl, fun block hr => ?_⟩
  unfold outcome stateAfter at *
  rcases takeBlock_cases draft with ⟨found, after, -, hrun⟩ | ⟨-, hrun⟩
  · rw [hrun] at hr ⊢
    cases hr
    exact List.mem_cons_self ..
  · rw [hrun] at hr
    cases hr

theorem steps_putBlock {block : Nat} (hb : block ∈ draft.taken) (data : Block) :
    Ends (putBlock block data) draft fun _ draft' => Steps draft draft' :=
  ends_iff.mpr (.put .refl hb data)

theorem steps_writeChildren {child : Nat → Action (Draft κ) Nat}
    (hchild : ∀ first draft, Ends (child first) draft fun _ draft' => Steps draft draft')
    (span count : Nat) : ∀ (first : Nat) (pointers : Array Nat) (draft : Draft κ),
      Ends (writeChildren child span count first pointers) draft
        fun _ draft' => Steps draft draft' := by
  induction count with
  | zero => exact fun _ _ _ => .refl
  | succ count ih =>
    intro first pointers draft
    unfold writeChildren
    refine (hchild first draft).bind ?_ fun _ _ h => h
    intro root draft₁ h₁
    rw [ends_bind, ends_ofExcept]
    cases checkPointer root with
    | error e => exact h₁
    | ok _ => exact (ih _ _ draft₁).mono fun _ _ h₂ => h₁.trans h₂

theorem steps_writeSubtree (data : ByteArray) (blocks level : Nat) :
    ∀ (first : Nat) (draft : Draft κ),
      Ends (writeSubtree data blocks level first) draft fun _ draft' => Steps draft draft' := by
  induction level with
  | zero =>
    intro first draft
    unfold writeSubtree
    split
    · exact .refl
    · refine (steps_takeBlock draft).bind ?_ fun _ _ h => h.1
      rintro block draft₁ ⟨h₁, hblock⟩
      refine (steps_putBlock (hblock block rfl) _).bind ?_ fun _ _ h₂ => h₁.trans h₂
      exact fun _ _ h₂ => h₁.trans h₂
  | succ level ih =>
    intro first draft
    unfold writeSubtree
    dsimp only
    split
    · exact .refl
    · refine (steps_takeBlock draft).bind ?_ fun _ _ h => h.1
      rintro key draft₁ ⟨h₁, hkey⟩
      refine (steps_writeChildren ih _ _ _ _ draft₁).bind ?_ fun _ _ h₂ => h₁.trans h₂
      intro pointers draft₂ h₂
      -- The node is written last, and its block is still one of those taken.
      refine (steps_putBlock (h₂.taken_subset (hkey key rfl)) _).bind ?_
        fun _ _ h₃ => (h₁.trans h₂).trans h₃
      exact fun _ _ h₃ => (h₁.trans h₂).trans h₃

/-- Writing a fork is made of steps. -/
theorem steps_writePlain (data : ByteArray) (draft : Draft κ) :
    Ends (writePlain data) draft fun _ draft' => Steps draft draft' := by
  unfold writePlain
  split
  · exact .refl
  · refine (steps_writeSubtree data _ _ _ draft).bind ?_ fun _ _ h => h
    exact fun _ _ h => h

/-- Writing an extended file is made of steps. -/
theorem steps_writeBoth (data resource : ByteArray) (draft : Draft κ) :
    Ends (writeBoth data resource) draft fun _ draft' => Steps draft draft' := by
  unfold writeBoth
  refine (steps_takeBlock draft).bind ?_ fun _ _ h => h.1
  rintro key draft₁ ⟨h₁, hkey⟩
  refine (steps_writePlain data draft₁).bind ?_ fun _ _ h₂ => h₁.trans h₂
  intro dataFork draft₂ h₂
  refine ends_bind.mpr (ends_ask.mpr ?_)
  dsimp only
  refine (steps_writePlain resource draft₂).bind ?_ fun _ _ h₃ => (h₁.trans h₂).trans h₃
  intro resourceFork draft₃ h₃
  have h := (h₁.trans h₂).trans h₃
  rw [ends_bind, ends_ofExcept]
  split
  · rw [ends_bind, ends_ofExcept]
    split
    · have hkey₃ := h₃.taken_subset (h₂.taken_subset (hkey key rfl))
      refine (steps_putBlock hkey₃ _).bind ?_ fun _ _ h₄ => h.trans h₄
      exact fun _ _ h₄ => h.trans h₄
    · exact h
  · exact h

/-! ## What steps do -/

omit [BlockStore κ] in
theorem stateAfter_takeBlock (draft : Draft κ) :
    (takeBlock.stateAfter draft).store = draft.store ∧
      (takeBlock.stateAfter draft).bitmap = draft.bitmap.alloc.2 := by
  unfold stateAfter
  rcases takeBlock_cases draft with ⟨block, after, ha, hrun⟩ | ⟨ha, hrun⟩ <;> simp [hrun, ha]

/-- The blocks that were taken were free, and the bitmap looks for the next one where the last one
was found. -/
theorem Steps.exists_took (h : Steps draft draft') :
    ∃ new, draft'.taken = new ++ draft.taken ∧ draft.bitmap.Took new draft'.bitmap ∧
      draft'.bitmap.cursor = (new.head?.map (· / 8)).getD draft.bitmap.cursor := by
  induction h with
  | refl => exact ⟨[], rfl, .refl _, rfl⟩
  | @take middle _ ih =>
    obtain ⟨new, htaken, htook, hcursor⟩ := ih
    unfold stateAfter
    rcases takeBlock_cases middle with ⟨block, after, ha, hrun⟩ | ⟨-, hrun⟩
    · rw [hrun]
      refine ⟨block :: new, congrArg (block :: ·) htaken, htook.trans (Bitmap.took_alloc ha), ?_⟩
      exact Bitmap.cursor_alloc ha
    · rw [hrun]
      exact ⟨new, htaken, htook, hcursor⟩
  | put _ _ data ih =>
    rw [stateAfter_putBlock]
    exact ih

/-- Nothing but the next free block is ever asked of the bitmap. -/
theorem Steps.exists_demands (h : Steps draft draft') :
    ∃ demands, draft'.bitmap = Bitmap.serveAll demands draft.bitmap := by
  induction h with
  | refl => exact ⟨[], rfl⟩
  | @take middle _ ih =>
    obtain ⟨demands, hbitmap⟩ := ih
    refine ⟨demands ++ [.any], ?_⟩
    rw [(stateAfter_takeBlock middle).2, Bitmap.serveAll_append, ← hbitmap]
    rfl
  | put _ _ data ih =>
    rw [stateAfter_putBlock]
    exact ih

/-- Only blocks that were taken change. -/
theorem Steps.exists_contents {Holds : κ → (Nat → Block) → Prop} {c : Nat → Block}
    (hF : Faithful BlockStore.readBlock BlockStore.writeBlock Holds) (h : Steps draft draft')
    (hc : Holds draft.store c) :
    ∃ c', Holds draft'.store c' ∧ ∀ block, block ∉ draft'.taken → c' block = c block := by
  induction h with
  | refl => exact ⟨c, hc, fun _ _ => rfl⟩
  | @take middle _ ih =>
    obtain ⟨c', hc', hsame⟩ := ih
    refine ⟨c', (stateAfter_takeBlock middle).1 ▸ hc', fun block hb => hsame block fun hm => ?_⟩
    exact hb (taken_subset_takeBlock middle hm)
  | @put middle _ block hb data ih =>
    obtain ⟨c', hc', hsame⟩ := ih
    have hwrite := ends_iff.mp (hF.write_ends hc' block data)
    rw [stateAfter_putBlock]
    cases hr : (BlockStore.writeBlock block data).outcome middle.store with
    | ok _ =>
      rw [hr] at hwrite
      refine ⟨_, hwrite, fun other ho => ?_⟩
      have hne : other ≠ block := fun he => ho (he ▸ hb)
      rw [Function.update_of_ne hne, hsame other ho]
    | error e =>
      rw [hr] at hwrite
      exact ⟨c', hwrite, hsame⟩

/-! ## What is left of a write -/

variable {write : Action (Draft κ) Descriptor} {store : κ} {bitmap : Bitmap} {after : κ × Bitmap}

omit [BlockStore κ] in
/-- A write that succeeds leaves what it wrote. -/
theorem of_commit_eq_ok {descriptor : Descriptor}
    (h : (commit write).run (store, bitmap) = .ok descriptor after) :
    ∃ draft, write.run ⟨store, bitmap, []⟩ = .ok descriptor draft ∧
      after = (draft.store, draft.bitmap) := by
  unfold EStateM.run commit at *
  dsimp only at h
  cases hw : write ⟨store, bitmap, []⟩ with
  | ok descriptor' draft =>
    rw [hw] at h
    cases h
    exact ⟨draft, rfl, rfl⟩
  | error e draft =>
    rw [hw] at h
    cases h

omit [BlockStore κ] in
/-- A write that fails releases what it took. -/
theorem of_commit_eq_error {e : DiskError}
    (h : (commit write).run (store, bitmap) = .error e after) :
    ∃ draft, write.run ⟨store, bitmap, []⟩ = .error e draft ∧
      after = (draft.store, Bitmap.releaseAll draft.taken draft.bitmap) := by
  unfold EStateM.run commit at *
  dsimp only at h
  cases hw : write ⟨store, bitmap, []⟩ with
  | ok descriptor draft =>
    rw [hw] at h
    cases h
  | error e' draft =>
    rw [hw] at h
    cases h
    exact ⟨draft, rfl, rfl⟩

/-- A write that fails leaves the same blocks free. -/
theorem alike_of_fails
    (hsteps : ∀ draft, Ends write draft fun _ draft' => Steps draft draft')
    (h : Fails (commit write) (store, bitmap)) :
    bitmap.Alike ((commit write).stateAfter (store, bitmap)).2 := by
  obtain ⟨e, he⟩ := h
  obtain ⟨draft, hrun, hafter⟩ := of_commit_eq_error (run_eq_error_of_outcome he)
  obtain ⟨taken, htaken, htook, -⟩ := ((hsteps _).of_error hrun).exists_took
  rw [hafter, htaken, List.append_nil]
  exact htook.releaseAll

end Diskette.Draft
