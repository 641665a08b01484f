import Diskette.Proofs.Fork.Freeing
import Diskette.Proofs.Pool.Store

/-!
# Files that are written and freed in any order

A run starts with a store and a bitmap and writes, reads and frees files. After every step the files
that are left read what they read right after they were written, they share no block with each
other and none with what was there before, and all other blocks are free.

* `FilesKept.written`, `FilesKept.congr`, `FilesKept.freed`: a step keeps the invariant.
* `FilesKept.carry`: it carries over to another store.
* `FileRun.undisturbed`: what holds after every step of a run.
-/

namespace Diskette

open Diskette.Action

variable {κ : Type} [BlockStore κ]

/-- A write of a file. -/
inductive FileWrite
  | plain (data : ByteArray)
  | extended (data resource : ByteArray)

/-- Writes a file. -/
def FileWrite.perform : FileWrite → Action (κ × Bitmap) Descriptor
  | plain data => writeFork data
  | extended data resource => writeExtended data resource

/-- What the forks of a file are to read after a write. -/
def FileWrite.contents : FileWrite → Fork → Except DiskError ByteArray
  | plain data => plainContents data
  | extended data resource => extendedContents data resource

/-- A file that was written and not freed yet. -/
structure LiveFile where
  descriptor : Descriptor
  /-- What its forks read right after it was written. -/
  reads : Fork → Except DiskError ByteArray

/-- The blocks that the files take. -/
def LiveFile.allBlocks (c : Nat → Block) (live : List LiveFile) : List Nat :=
  live.flatMap fun file => file.descriptor.blocks c

/-- The states that are reached from `start`, and the files that are left then. -/
inductive FileRun (start : κ × Bitmap) : κ × Bitmap → List LiveFile → Prop
  | start : FileRun start start []
  | written {s after : κ × Bitmap} {live : List LiveFile} {write : FileWrite}
      {descriptor : Descriptor} (run : FileRun start s live)
      (ok : write.perform.run s = .ok descriptor after) :
      FileRun start after
        (⟨descriptor, fun fork => (readFork descriptor fork).outcome after.1⟩ :: live)
  | failed {s after : κ × Bitmap} {live : List LiveFile} {write : FileWrite} {e : DiskError}
      (run : FileRun start s live) (error : write.perform.run s = .error e after) :
      FileRun start after live
  | read {s : κ × Bitmap} {live : List LiveFile} {file : LiveFile} (run : FileRun start s live)
      (mem : file ∈ live) (fork : Fork) :
      FileRun start ((readFork file.descriptor fork).stateAfter s.1, s.2) live
  | freed {s : κ × Bitmap} {front back : List LiveFile} {file : LiveFile}
      (run : FileRun start s (front ++ file :: back)) :
      FileRun start ((freeFork file.descriptor).stateAfter s) (front ++ back)

variable {n : Nat} {Holds : κ → (Nat → Block) → Prop} {c c₀ : Nat → Block} {before : Bitmap}
  {s : κ × Bitmap} {live : List LiveFile} {file : LiveFile}

/-! ## The invariant -/

omit [BlockStore κ] in
/-- The live files are in the array `c`, and besides their blocks everything is as in `c₀` and
`before`. -/
structure FilesKept (n : Nat) (Holds : κ → (Nat → Block) → Prop) (c₀ : Nat → Block) (before : Bitmap)
    (s : κ × Bitmap) (live : List LiveFile) (c : Nat → Block) : Prop where
  holds : Holds s.1 c
  stored {file : LiveFile} (h : file ∈ live) : Stored n c file.descriptor file.reads
  used_eq {file : LiveFile} (h : file ∈ live) :
    file.descriptor.blocksUsed = (file.descriptor.blocks c).length
  took : before.Took (LiveFile.allBlocks c live) s.2
  contents_eq {block : Nat} (h : before.isFree block = false) : c block = c₀ block

namespace FilesKept

omit [BlockStore κ] in
theorem start (h : Holds s.1 c) : FilesKept n Holds c s.2 s [] c :=
  ⟨h, nofun, nofun, .refl s.2, fun _ => rfl⟩

omit [BlockStore κ] in
theorem free_of_mem (h : FilesKept n Holds c₀ before s live c) (hf : file ∈ live) {block : Nat}
    (hb : block ∈ file.descriptor.blocks c) : before.isFree block = true :=
  h.took.free (List.mem_flatMap.mpr ⟨file, hf, hb⟩)

omit [BlockStore κ] in
theorem isFree_of_mem (h : FilesKept n Holds c₀ before s live c) (hf : file ∈ live) {block : Nat}
    (hb : block ∈ file.descriptor.blocks c) : s.2.isFree block = false :=
  h.took.isFree_of_mem (List.mem_flatMap.mpr ⟨file, hf, hb⟩)

omit [BlockStore κ] in
/-- The invariant carries over to a store of another kind in which the blocks of the files are the
same. -/
theorem carry (h : FilesKept n Holds c₀ before s live c) {κ' : Type}
    {Holds' : κ' → (Nat → Block) → Prop} {s' : κ' × Bitmap} {c' c₁ : Nat → Block}
    (hholds : Holds' s'.1 c') (halike : s.2.Alike s'.2)
    (hfile : ∀ file ∈ live, ∀ block ∈ file.descriptor.blocks c, c' block = c block)
    (hbefore : ∀ block, before.isFree block = false → c' block = c₁ block) :
    FilesKept n Holds' c₁ before s' live c' := by
  have hall : LiveFile.allBlocks c' live = LiveFile.allBlocks c live :=
    List.flatMap_congr fun file hf => Descriptor.blocks_congr (hfile file hf)
  refine ⟨hholds, fun hf => (h.stored hf).congr (hfile _ hf), fun hf => ?_, ?_, hbefore _⟩
  · rw [h.used_eq hf, Descriptor.blocks_congr (hfile _ hf)]
  · rw [hall]
    exact h.took.alike halike

omit [BlockStore κ] in
/-- The invariant carries over to an array that was changed in free blocks only. -/
theorem congr (h : FilesKept n Holds c₀ before s live c) {s' : κ × Bitmap} {c' : Nat → Block}
    (hholds : Holds s'.1 c') (halike : s.2.Alike s'.2)
    (hc : ∀ block, s.2.isFree block = false → c' block = c block) :
    FilesKept n Holds c₀ before s' live c' := by
  refine h.carry hholds halike (fun file hf block hb => hc block (h.isFree_of_mem hf hb)) ?_
  intro block hb
  rw [hc _ (h.took.isFree_eq_false hb), h.contents_eq hb]

omit [BlockStore κ] in
/-- The order of the files does not matter. -/
theorem perm (h : FilesKept n Holds c₀ before s live c) {live' : List LiveFile}
    (hp : live'.Perm live) : FilesKept n Holds c₀ before s live' c where
  holds := h.holds
  stored hf := h.stored (hp.mem_iff.mp hf)
  used_eq hf := h.used_eq (hp.mem_iff.mp hf)
  took := h.took.perm (hp.flatMap_right _)
  contents_eq := h.contents_eq

omit [BlockStore κ] in
/-- A file is added. -/
theorem added (h : FilesKept n Holds c₀ before s live c) {after : κ × Bitmap}
    {contents : Fork → Except DiskError ByteArray} {descriptor : Descriptor} {c' : Nat → Block}
    (hholds : Holds after.1 c') (ha : Added n c s.2 descriptor contents c' after.2) :
    FilesKept n Holds c₀ before after (⟨descriptor, contents⟩ :: live) c' := by
  have hold (block : Nat) (hb : s.2.isFree block = false) : c' block = c block := by
    refine ha.contents_eq fun hmem => ?_
    rw [ha.took.free hmem] at hb
    cases hb
  -- The blocks of the new file are still free in the old bitmap.
  have h' : FilesKept n Holds c₀ before (after.1, s.2) live c' := h.congr hholds (.refl _) hold
  refine ⟨hholds, fun hf => ?_, fun hf => ?_, ?_, h'.contents_eq⟩
  · rcases List.mem_cons.mp hf with rfl | hf
    · exact ha.stored
    · exact h'.stored hf
  · rcases List.mem_cons.mp hf with rfl | hf
    · exact ha.used_eq
    · exact h'.used_eq hf
  · exact h'.took.trans ha.took

/-- A file is written. -/
theorem written (hS : ArrayStore n Holds) (h : FilesKept n Holds c₀ before s live c)
    {after : κ × Bitmap} {contents : Fork → Except DiskError ByteArray} {descriptor : Descriptor}
    {c' : Nat → Block}
    (hholds : Holds after.1 c') (ha : Added n c s.2 descriptor contents c' after.2) :
    FilesKept n Holds c₀ before after
      (⟨descriptor, fun fork => (readFork descriptor fork).outcome after.1⟩ :: live) c' := by
  have hreads : (fun fork => (readFork descriptor fork).outcome after.1) = contents := by
    funext fork
    exact (ends_iff.mp (ha.stored.readFork_ends hS hholds fork)).2
  rw [hreads]
  exact h.added hholds ha

omit [BlockStore κ] in
/-- A file is freed. -/
theorem freed (h : FilesKept n Holds c₀ before s (file :: live) c)
    {r : Except DiskError Unit} {after : κ × Bitmap}
    (hf : Freed Holds c s.2 (file.descriptor.blocks c) r after) :
    FilesKept n Holds c₀ before after live c := by
  refine ⟨hf.holds, fun hf' => h.stored (List.mem_cons_of_mem _ hf'),
    fun hf' => h.used_eq (List.mem_cons_of_mem _ hf'), ?_, h.contents_eq⟩
  have htook : before.Took (file.descriptor.blocks c ++ LiveFile.allBlocks c live) s.2 := h.took
  rw [hf.bitmap_eq]
  exact htook.releaseAll_append

omit [BlockStore κ] in
/-- How many blocks the files leave. -/
theorem freeBlocks_add (h : FilesKept n Holds c₀ before s live c) :
    s.2.freeBlocks + (live.map fun file => file.descriptor.blocksUsed).sum = before.freeBlocks := by
  have hlength : (LiveFile.allBlocks c live).length =
      (live.map fun file => file.descriptor.blocksUsed).sum := by
    rw [LiveFile.allBlocks, List.length_flatMap]
    exact congrArg List.sum (List.map_congr_left fun file hf => (h.used_eq hf).symm)
  rw [← hlength]
  exact h.took.freeBlocks_add

end FilesKept

/-! ## Runs -/

theorem FileWrite.perform_ends (hS : ArrayStore n Holds) (write : FileWrite) (h : Holds s.1 c)
    (h0 : s.2.isFree 0 = false) :
    Ends write.perform s (Adds n Holds c s.2 write.contents) := by
  obtain ⟨store, bitmap⟩ := s
  cases write with
  | plain data => exact writeFork_ends hS h h0 data
  | extended data resource => exact writeExtended_ends hS h h0 data resource

theorem FileRun.exists_kept (hS : ArrayStore n Holds) {start : κ × Bitmap} (hc : Holds start.1 c₀)
    (h0 : start.2.isFree 0 = false) (hrun : FileRun start s live) :
    ∃ c, FilesKept n Holds c₀ start.2 s live c := by
  induction hrun with
  | start => exact ⟨c₀, .start hc⟩
  | written _ ok ih =>
    obtain ⟨c, h⟩ := ih
    obtain ⟨c', hholds, hadded⟩ :=
      (FileWrite.perform_ends hS _ h.holds (h.took.isFree_eq_false h0)).of_ok ok
    exact ⟨c', h.written hS hholds hadded⟩
  | failed _ error ih =>
    obtain ⟨c, h⟩ := ih
    obtain ⟨c', hholds, halike, hsame⟩ :=
      (FileWrite.perform_ends hS _ h.holds (h.took.isFree_eq_false h0)).of_error error
    exact ⟨c', h.congr hholds halike hsame⟩
  | read _ mem fork ih =>
    obtain ⟨c, h⟩ := ih
    have hholds := (ends_iff.mp ((h.stored mem).readFork_ends hS h.holds fork)).1
    exact ⟨c, h.congr hholds (.refl _) fun _ _ => rfl⟩
  | @freed s front back file _ ih =>
    obtain ⟨c, h⟩ := ih
    have hmem : file ∈ front ++ file :: back := List.mem_append_right _ (List.mem_cons_self ..)
    exact ⟨c, (h.perm List.perm_middle.symm).freed
      (ends_iff.mp (freeFork_ends hS (h.stored hmem) h.holds))⟩

/-- What holds of the live files in the array `c` when `c₀` and `before` were there at the start. -/
structure Undisturbed (Holds : κ → (Nat → Block) → Prop) (c₀ : Nat → Block) (before : Bitmap)
    (s : κ × Bitmap) (live : List LiveFile) (c : Nat → Block) : Prop where
  holds : Holds s.1 c
  reads {file : LiveFile} (h : file ∈ live) (fork : Fork) :
    (readFork file.descriptor fork).outcome s.1 = file.reads fork
  frees {file : LiveFile} (h : file ∈ live) : (freeFork file.descriptor).outcome s = .ok ()
  disjoint : live.Pairwise fun file other =>
    (file.descriptor.blocks c).Disjoint (other.descriptor.blocks c)
  nodup {file : LiveFile} (h : file ∈ live) : (file.descriptor.blocks c).Nodup
  free_before {file : LiveFile} (h : file ∈ live) {block : Nat}
    (hb : block ∈ file.descriptor.blocks c) : before.isFree block = true
  blocks_eq : s.2.blocks = before.blocks
  isFree_iff (block : Nat) : s.2.isFree block = true ↔
    before.isFree block = true ∧ ∀ file ∈ live, block ∉ file.descriptor.blocks c
  freeBlocks_add : s.2.freeBlocks + (live.map fun file => file.descriptor.blocksUsed).sum =
    before.freeBlocks
  contents_eq {block : Nat} (h : before.isFree block = false) : c block = c₀ block

/-- After every step of a run the files that are left are undisturbed. -/
theorem FileRun.undisturbed (hS : ArrayStore n Holds) {start : κ × Bitmap} (hc : Holds start.1 c₀)
    (h0 : start.2.isFree 0 = false) (hrun : FileRun start s live) :
    ∃ c, Undisturbed Holds c₀ start.2 s live c := by
  obtain ⟨c, h⟩ := hrun.exists_kept hS hc h0
  obtain ⟨hnodup, hdisjoint⟩ := List.nodup_flatMap.mp h.took.nodup
  refine ⟨c, h.holds, fun hf fork => ?_, fun hf => ?_, hdisjoint, hnodup _, fun hf _ hb => ?_,
    h.took.blocks_eq, fun block => ?_, h.freeBlocks_add, h.contents_eq⟩
  · exact (ends_iff.mp ((h.stored hf).readFork_ends hS h.holds fork)).2
  · exact (ends_iff.mp (freeFork_ends hS (h.stored hf) h.holds)).ok
  · exact h.free_of_mem hf hb
  · rw [h.took.isFree_eq]
    simp [LiveFile.allBlocks]

/-- Two files are written to eight blocks behind a pool of two buffers, and the first one is
freed. -/
theorem FileRun.undisturbed_memory :
    let memory : Memory := ⟨8, fun _ => Bytes.zero 512⟩
    let start : (Pool × Memory) × Bitmap :=
      ((Pool.ofSize 2, memory), ⟨(Array.replicate 8 true).setIfInBounds 0 false, 0⟩)
    start.2.isFree 0 = false ∧ ∃ s file, FileRun start s [file] ∧
      file.descriptor = ⟨.extended, 2, 3, 512⟩ ∧
      ∃ c, Undisturbed (fun store shown => Pool.Shows 8 false
        (fun (memory : Memory) c => memory.size = 8 ∧ memory.blocks = c) store shown ∅)
        memory.blocks start.2 s [file] c := by
  intro memory start
  have h0 : start.2.isFree 0 = false := rfl
  have hfirst : (FileWrite.plain ⟨#[1]⟩).perform.run start = .ok ⟨.seedling, 1, 1, 1⟩ _ :=
    run_eq_ok_of_outcome (by decide +kernel)
  have hsecond : (FileWrite.extended ⟨#[2]⟩ ⟨#[3]⟩).perform.run
      ((FileWrite.plain ⟨#[1]⟩).perform.stateAfter start) = .ok ⟨.extended, 2, 3, 512⟩ _ :=
    run_eq_ok_of_outcome (by decide +kernel)
  have hwritten := (FileRun.start.written hfirst).written hsecond
  have hrun := @FileRun.freed _ _ start _ [_] [] _ hwritten
  have hS := Pool.arrayStore (Memory.arrayDisk 8)
  exact ⟨h0, _, _, hrun, rfl, hrun.undisturbed hS (Pool.shows_ofSize ⟨rfl, rfl⟩ 2) h0⟩

end Diskette
