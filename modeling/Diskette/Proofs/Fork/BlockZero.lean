import Diskette.Proofs.Fork.Interrupted
import Diskette.Proofs.Fork.Rollback

/-!
# Block 0 and files

As a pointer the number 0 stands for a hole, so block 0 must never be one of those that are handed
out. While it is in use no write takes it, and hardly anything makes it free: whatever the nodes and
the mini entries on a volume say, freeing passes over pointers that are 0, and a write that is rolled
back releases only what it took. The key block of an extended file, however, is released without a
look at its number.

* `preserves_freeSubtree`: a tree is freed without block 0.
* `isFree_zero_freeFork`, `Descriptor.freesZero_iff`: the files that are freed with block 0.
* `FileWrite.used_perform`: what is in use before a write is in use after it.
* `FileStep.isFree_zero_after`, `FileStep.used_afterAll_iff`: one step and a run of steps.
* `FileStep.keepsZero_iff`: when block 0 stays in use.
-/

namespace Diskette

open Diskette.Action

variable {κ : Type} [BlockStore κ] {α : Type} {n block : Nat} {state : Bool}
  {descriptor : Descriptor} {s start : κ × Bitmap}

/-! ## Freeing -/

/-- The volume has `n` blocks, and block 0 is free or in use. -/
def ZeroIs (n : Nat) (free : Bool) (s : κ × Bitmap) : Prop :=
  s.2.blocks = n ∧ s.2.isFree 0 = free

omit [BlockStore κ] in
theorem preserves_onFirst (act : Action κ α) : Preserves (ZeroIs n state) (onFirst act) := by
  rintro ⟨store, bitmap⟩ h
  exact ends_onFirst.mpr (ends_iff.mpr h)

omit [BlockStore κ] in
theorem preserves_releaseBlock (hb : block ≠ 0) :
    Preserves (ZeroIs (κ := κ) n state) (releaseBlock block) := by
  rintro ⟨store, bitmap⟩ ⟨hblocks, hfree⟩
  refine ends_modify.mpr ⟨(bitmap.blocks_release block).trans hblocks, ?_⟩
  rw [Bitmap.isFree_release, hfree, decide_eq_false fun h => hb h.1.symm, Bool.or_false]

omit [BlockStore κ] in
theorem preserves_freeChildren {child : Nat → Action (κ × Bitmap) Unit}
    (hchild : ∀ root, Preserves (ZeroIs n state) (child root)) (node : Block) (count : Nat) :
    ∀ index, Preserves (ZeroIs n state) (freeChildren child node count index) := by
  induction count with
  | zero => exact fun _ => preserves_pure ()
  | succ count ih => exact fun index => (hchild _).bind fun _ => ih (index + 1)

/-- A tree is freed without block 0, whatever is in its nodes. -/
theorem preserves_freeSubtree (level : Nat) :
    ∀ root, Preserves (ZeroIs (κ := κ) n state) (freeSubtree level root) := by
  induction level with
  | zero =>
    intro root
    unfold freeSubtree
    split
    · exact preserves_pure ()
    · next hroot => exact preserves_releaseBlock hroot
  | succ level ih =>
    intro root
    unfold freeSubtree
    split
    · exact preserves_pure ()
    · next hroot =>
      refine (preserves_onFirst _).bind fun node => ?_
      exact (preserves_freeChildren ih node 256 0).bind fun _ => preserves_releaseBlock hroot

theorem preserves_freePlain (plain : Descriptor) :
    Preserves (ZeroIs (κ := κ) n state) (freePlain plain) := by
  unfold freePlain
  split
  · exact preserves_freeSubtree _ _
  · exact preserves_pure ()

/-- Frees both forks of an extended file, but not its key block. -/
def freeForks (descriptor : Descriptor) : Action (κ × Bitmap) Unit := do
  let dataFork ← onFirst (normalize descriptor .data)
  freePlain dataFork
  let resourceFork ← onFirst (normalize descriptor .resource)
  freePlain resourceFork

theorem preserves_freeForks (descriptor : Descriptor) :
    Preserves (ZeroIs (κ := κ) n state) (freeForks descriptor) := by
  refine (preserves_onFirst _).bind fun dataFork => (preserves_freePlain dataFork).bind fun _ => ?_
  exact (preserves_onFirst _).bind preserves_freePlain

/-- The key block of an extended file is released after its forks. -/
theorem freeFork_extended (he : descriptor.storageType = .extended) :
    (freeFork descriptor : Action (κ × Bitmap) Unit) = (do
      freeForks descriptor
      releaseBlock descriptor.keyBlock) := by
  unfold freeFork freeForks
  rw [he]
  simp only [StorageType.levels?, bind_assoc]

theorem preserves_freeFork (he : descriptor.storageType ≠ .extended) :
    Preserves (ZeroIs (κ := κ) n state) (freeFork descriptor) := by
  unfold freeFork
  cases hs : descriptor.storageType with
  | seedling | sapling | tree => exact preserves_freeSubtree _ _
  | extended => exact absurd hs he

/-- An extended file whose key block has the number 0 is freed to the end. -/
def Descriptor.FreesZero (descriptor : Descriptor) (s : κ × Bitmap) : Prop :=
  descriptor.storageType = .extended ∧ descriptor.keyBlock = 0 ∧ 0 < s.2.blocks ∧
    (freeFork descriptor).outcome s = .ok ()

/-- In no other case does freeing a file make block 0 free. -/
theorem isFree_zero_freeFork (descriptor : Descriptor) (s : κ × Bitmap) :
    ((freeFork descriptor).stateAfter s).2.isFree 0 = true ↔
      s.2.isFree 0 = true ∨ descriptor.FreesZero s := by
  have hs : ZeroIs s.2.blocks (s.2.isFree 0) s := ⟨rfl, rfl⟩
  by_cases he : descriptor.storageType = .extended
  · have hends := preserves_freeForks descriptor hs
    cases hforks : (freeForks descriptor).run s with
    | ok _ middle =>
      obtain ⟨hblocks, hfree⟩ := hends.of_ok hforks
      have hrun : (freeFork descriptor).run s =
          .ok () (middle.1, middle.2.release descriptor.keyBlock) := by
        rw [freeFork_extended he, run_bind_of_ok hforks]
        rfl
      rw [stateAfter, hrun]
      dsimp only
      rw [Bitmap.isFree_release, hblocks, hfree]
      by_cases hkey : descriptor.keyBlock = 0
      · simp [Descriptor.FreesZero, he, hkey, outcome_of_run_eq_ok hrun]
      · simp [Descriptor.FreesZero, hkey, Ne.symm hkey]
    | error e middle =>
      obtain ⟨-, hfree⟩ := hends.of_error hforks
      have hrun : (freeFork descriptor).run s = .error e middle := by
        rw [freeFork_extended he, run_bind_of_error hforks]
      rw [stateAfter, hrun]
      simp [hfree, Descriptor.FreesZero, outcome_of_run_eq_error hrun]
  · have hfree := (ends_iff.mp (preserves_freeFork he hs)).2
    simp [hfree, Descriptor.FreesZero, he]

/-- That is so if there are two mini entries in block 0, and all that they lead to can be read. -/
theorem Descriptor.freesZero_iff {store : κ} {bitmap : Bitmap}
    {content : Nat → Except DiskError Block} (h : ReadsAs store content) :
    descriptor.FreesZero (store, bitmap) ↔ descriptor.storageType = .extended ∧
      descriptor.keyBlock = 0 ∧ 0 < bitmap.blocks ∧
        (descriptor.releases content).result = .ok () := by
  rw [FreesZero, (ends_iff.mp (carriesOut_freeFork descriptor h)).result_eq]

/-! ## Writing -/

namespace FileWrite

variable {write : FileWrite} {store : κ} {bitmap : Bitmap}

/-- A write takes no block that is in use. -/
theorem notMem_taken (hused : bitmap.isFree block = false) : block ∉ write.taken store bitmap := by
  obtain ⟨new, hnew, htook, -⟩ := (ends_iff.mp (write.steps_draft ⟨store, bitmap, []⟩)).exists_took
  intro hmem
  rw [taken, hnew, List.append_nil] at hmem
  rw [htook.free hmem] at hused
  cases hused

/-- What is in use before a write is in use after it, whatever comes of it. -/
theorem used_perform (hused : s.2.isFree block = false) :
    (write.perform.stateAfter s).2.isFree block = false := by
  obtain ⟨store, bitmap⟩ := s
  cases hr : write.perform.run (store, bitmap) with
  | ok descriptor after =>
    have hcommit := hr
    rw [perform_eq] at hcommit
    obtain ⟨draft, hdraft, rfl⟩ := Draft.of_commit_eq_ok hcommit
    obtain ⟨new, -, htook, -⟩ := ((write.steps_draft _).of_ok hdraft).exists_took
    rw [stateAfter, hr]
    exact htook.isFree_eq_false hused
  | error e after =>
    obtain ⟨draft, htook, hafter, -⟩ := bitmap_of_perform_eq_error hr
    rw [stateAfter, hr]
    dsimp only
    rw [hafter, htook.releaseAll.isFree_eq, hused]

end FileWrite

/-! ## Runs -/

/-- What is done with a volume. -/
inductive FileStep (κ : Type) where
  | write (file : FileWrite)
  | free (descriptor : Descriptor)
  /-- Anything that is done to the blocks and leaves the bitmap alone. -/
  | change (blocks : κ → κ)

namespace FileStep

/-- What a step leaves. -/
def after : FileStep κ → κ × Bitmap → κ × Bitmap
  | write file, s => file.perform.stateAfter s
  | free descriptor, s => (freeFork descriptor).stateAfter s
  | change blocks, s => (blocks s.1, s.2)

/-- What steps leave, one after the other and whatever comes of them. -/
def afterAll (steps : List (FileStep κ)) (start : κ × Bitmap) : κ × Bitmap :=
  steps.foldl (fun s step => step.after s) start

/-- The step frees an extended file whose key block has the number 0. -/
def FreesZero : FileStep κ → κ × Bitmap → Prop
  | free descriptor, s => descriptor.FreesZero s
  | _, _ => False

/-- One step. -/
theorem isFree_zero_after (h0 : s.2.isFree 0 = false) (step : FileStep κ) :
    (step.after s).2.isFree 0 = true ↔ step.FreesZero s := by
  cases step with
  | write file => simp [after, FreesZero, FileWrite.used_perform h0]
  | free descriptor =>
    rw [after, isFree_zero_freeFork, h0]
    simp [FreesZero]
  | change blocks => simp [after, FreesZero, h0]

/-- A run of steps. It is enough to look at each step where it is done. -/
theorem used_afterAll_iff (steps : List (FileStep κ)) :
    ∀ {start : κ × Bitmap}, start.2.isFree 0 = false →
      ((∀ k, (afterAll (steps.take k) start).2.isFree 0 = false) ↔
        ∀ (k : Nat) (step : FileStep κ), steps[k]? = some step →
          ¬ step.FreesZero (afterAll (steps.take k) start)) := by
  induction steps with
  | nil => exact fun h0 => ⟨nofun, fun _ _ => by rwa [List.take_nil]⟩
  | cons step rest ih =>
    intro start h0
    have hstep : (step.after start).2.isFree 0 = false ↔ ¬ step.FreesZero start := by
      rw [← isFree_zero_after h0, Bool.not_eq_true]
    constructor
    · intro hused k
      cases k with
      | zero =>
        rintro _ ⟨⟩
        exact hstep.mp (hused 1)
      | succ k => exact (ih (hused 1)).mp (fun k => hused (k + 1)) k
    · intro hnone k
      cases k with
      | zero => exact h0
      | succ k =>
        have hafter := hstep.mpr (hnone 0 step rfl)
        exact (ih hafter).mpr (fun k => hnone (k + 1)) k

/-- Block 0 is in use before the first step and after each of them, and nothing that is written
takes it. -/
def KeepsZero (steps : List (FileStep κ)) (start : κ × Bitmap) : Prop :=
  ∀ k, let s := afterAll (steps.take k) start
    s.2.isFree 0 = false ∧ ∀ file, steps[k]? = some (write file) → 0 ∉ file.taken s.1 s.2

/-- Block 0 stays in use, whatever is written and freed and whatever the volume holds, as long as no
extended file is freed whose key block has the number 0. Such a file is freed like any other if there
are two mini entries in block 0 and what they lead to can be read. After that block 0 is free. -/
theorem keepsZero_iff (steps : List (FileStep κ)) (h0 : start.2.isFree 0 = false) :
    KeepsZero steps start ↔ ∀ (k : Nat) (step : FileStep κ), steps[k]? = some step →
      ¬ step.FreesZero (afterAll (steps.take k) start) := by
  rw [← used_afterAll_iff steps h0]
  exact forall_congr' fun k => and_iff_left_of_imp fun hused file _ => FileWrite.notMem_taken hused

/-- The mini entries in block 0 are those of two forks without blocks. The file with that key block is
freed, and block 0 is handed out next. -/
theorem keepsZero_iff_memory :
    let entry := Bytes.ofList 8 [1]
    let memory : Memory :=
      ⟨16, Function.update (fun _ => Bytes.zero 512) 0 (Draft.keyBlock entry entry)⟩
    let bitmap := Bitmap.serveAll ([0, 1, 2, 3].map .one) (Bitmap.freshly 16)
    let steps : List (FileStep Memory) := [.free ⟨.extended, 0, 1, 512⟩]
    bitmap.isFree 0 = false ∧ ¬ KeepsZero steps (memory, bitmap) ∧
      (afterAll steps (memory, bitmap)).2.alloc.1 = some 0 := by
  intro entry memory bitmap steps
  let content : Nat → Except DiskError Block := fun block =>
    if block < 16 then .ok (memory.blocks block) else .error (.blockOutOfRange block 16)
  have h : ReadsAs memory content := (Memory.exactStore 16).readsAs ⟨rfl, rfl⟩
  have hkey : content 0 = .ok (Draft.keyBlock entry entry) := by simp [content, memory]
  have hmini := Descriptor.mini_keyBlock (fun _ => .ok ⟨.seedling, 0, 0, 0⟩) hkey
    (by decide +kernel) (by decide +kernel)
  have hplan : Descriptor.releases content ⟨.extended, 0, 1, 512⟩ = [.ok 0] := by
    rw [Descriptor.releases_extended rfl, hmini, Plan.afterRead_ok, hmini, Plan.afterRead_ok]
    rfl
  have h0 : bitmap.isFree 0 = false := by decide
  have hstep : FreesZero (.free ⟨.extended, 0, 1, 512⟩) (memory, bitmap) :=
    (Descriptor.freesZero_iff h).mpr ⟨rfl, rfl, by decide, by rw [hplan]; rfl⟩
  have hbitmap {s : Memory} (hs : ReadsAs s content) :
      (afterAll steps (s, bitmap)).2 = bitmap.releaseAll [0] := by
    refine (ends_iff.mp (carriesOut_freeFork _ hs)).bitmap_eq.trans ?_
    rw [hplan]
    rfl
  refine ⟨h0, fun hkept => (keepsZero_iff steps h0).mp hkept 0 _ rfl hstep, ?_⟩
  rw [hbitmap h]
  decide

end FileStep

end Diskette
