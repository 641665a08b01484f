import Diskette.Proofs.Bitmap.Stored
import Diskette.Proofs.Fork.Runs
import Diskette.Proofs.Tasks

/-!
# Volumes that are stocked with files

The first blocks of a volume are for booting and for its directory, and its bitmap follows them. A
new volume is stocked: files are put into its other blocks, as many of them as find room, and the
bitmap is stored. When inventory is taken, later and maybe through something else, the bitmap and
the files are still there, and freeing the files makes the volume empty again.

* `parallel_stock`: stores that agree are stocked with the same files.
* `storeAll_ends`, `readAll_ends`, `freeAll_ends`: what is done with one file after the other.
* `stock_ends`: a volume is stocked.
* `Stocked.carry`, `takeInventory_ends`: what is found on a volume that was stocked.
-/

namespace Diskette

open Diskette.Action

variable {κ : Type} [BlockStore κ]

/-- A file that was written: its descriptor, and what was written. -/
abbrev StoredFile : Type := Descriptor × FileWrite

/-- Writes files one after the other. Those that could be written are returned. -/
def storeAll : List FileWrite → Action (κ × Bitmap) (List StoredFile)
  | [] => return []
  | write :: rest => do
    let written ← Action.attempt write.perform
    let files ← storeAll rest
    match written with
    | .ok descriptor => return (descriptor, write) :: files
    | .error _ => return files

/-- What a file reads: its data and its resource fork. -/
abbrev ForkPair : Type := Except DiskError ByteArray × Except DiskError ByteArray

/-- Reads both forks of files, one file after the other. -/
def readAll : List Descriptor → Action κ (List ForkPair)
  | [] => return []
  | descriptor :: rest => do
    let data ← Action.attempt (readFork descriptor .data)
    let resource ← Action.attempt (readFork descriptor .resource)
    let files ← readAll rest
    return (data, resource) :: files

/-- Frees files one after the other. -/
def freeAll : List Descriptor → Action (κ × Bitmap) Unit
  | [] => pure ()
  | descriptor :: rest => do
    freeFork descriptor
    freeAll rest

/-- Where the bitmap is stored: behind the boot blocks 0 and 1 and the directory in blocks 2 to
5. -/
abbrev bitmapStart : Nat := 6

/-- The number of blocks that are not for files. -/
def reservedBlocks (blocks : Nat) : Nat := bitmapStart + Bitmap.storedBlocks blocks

/-- Writes files to a new volume of `blocks` blocks, stores its bitmap, and returns the files that
could be written. -/
def stock (blocks : Nat) (writes : List FileWrite) : Action κ (List StoredFile) := do
  let stored ← (storeAll writes).withBeside (Bitmap.reserved blocks (reservedBlocks blocks))
  stored.2.write bitmapStart
  Action.ofExcept stored.1

/-- What is found on a volume. -/
structure Inventory where
  /-- The bitmap as it is loaded. -/
  bitmap : Bitmap
  /-- What the files read. -/
  forks : List ForkPair
  /-- The bitmap after all files were freed. -/
  emptied : Bitmap

/-- Loads the bitmap of a volume of `blocks` blocks, reads its files and frees them. -/
def takeInventory (blocks : Nat) (files : List Descriptor) : Action κ Inventory := do
  let bitmap ← Bitmap.load bitmapStart blocks
  let forks ← readAll files
  let freed ← (freeAll files).withBeside bitmap
  Action.ofExcept freed.1
  return ⟨bitmap, forks, freed.2⟩

/-! ## Stores that agree -/

section

variable {κ' : Type} [BlockStore κ'] {R : κ → κ' → Prop}

theorem FileWrite.parallel_perform (hR : StoresAgree R) (write : FileWrite) :
    Parallel (Beside R) write.perform write.perform := by
  cases write with
  | plain data => exact parallel_writeFork hR data
  | extended data resource => exact parallel_writeExtended hR data resource

theorem parallel_storeAll (hR : StoresAgree R) (writes : List FileWrite) :
    Parallel (Beside R) (storeAll writes) (storeAll writes) := by
  induction writes with
  | nil => exact parallel_pure _
  | cons write rest ih =>
    refine (write.parallel_perform hR).attempt.bind fun written => ih.bind fun files => ?_
    cases written with
    | ok descriptor => exact parallel_pure _
    | error e => exact parallel_pure _

/-- Stores that agree are stocked with the same files. -/
theorem parallel_stock (hR : StoresAgree R) (blocks : Nat) (writes : List FileWrite) :
    Parallel R (stock blocks writes) (stock blocks writes) :=
  ((parallel_storeAll hR writes).withBeside _).bind fun stored =>
    (stored.2.parallel_write hR bitmapStart).bind fun _ => parallel_ofExcept _

end

variable {n blocks : Nat} {Holds : κ → (Nat → Block) → Prop} {c c₀ : Nat → Block} {before : Bitmap}
  {s : κ × Bitmap} {live : List LiveFile}

/-! ## One file after the other -/

/-- The file that a write leaves. -/
def StoredFile.toLive (file : StoredFile) : LiveFile := ⟨file.1, file.2.contents⟩

/-- The files that could be written are there, in the order of the writes. -/
theorem storeAll_ends (hS : ArrayStore n Holds) (h0 : before.isFree 0 = false)
    (writes : List FileWrite) :
    ∀ {s : κ × Bitmap} {live : List LiveFile} {c : Nat → Block},
      FilesKept n Holds c₀ before s live c →
      Ends (storeAll writes) s fun r s' => ∃ files c', r = .ok files ∧
        (files.map (·.2)).Sublist writes ∧
        FilesKept n Holds c₀ before s' (files.map StoredFile.toLive ++ live) c' := by
  induction writes with
  | nil => exact fun h => ⟨[], _, rfl, .slnil, h⟩
  | cons write rest ih =>
    intro s live c h
    rw [storeAll, ends_bind, ends_attempt]
    refine (FileWrite.perform_ends hS write h.holds (h.took.isFree_eq_false h0)).mono ?_
    rintro (e | descriptor) s₁ ⟨c₁, hholds, hadds⟩
    · have h₁ := h.congr hholds hadds.1 hadds.2
      refine (ih h₁).bind ?_ fun e s' ⟨_, _, he, _⟩ => nomatch he
      rintro files s' ⟨_, c', hr, hsub, h'⟩
      obtain rfl := Except.ok.inj hr
      exact ⟨files, c', rfl, hsub.cons write, h'⟩
    · refine (ih (h.added hholds hadds)).bind ?_ fun e s' ⟨_, _, he, _⟩ => nomatch he
      rintro files s' ⟨_, c', hr, hsub, h'⟩
      obtain rfl := Except.ok.inj hr
      exact ⟨(descriptor, write) :: files, c', rfl, hsub.cons_cons write,
        h'.perm List.perm_middle.symm⟩

/-- Every file reads what it should. -/
theorem readAll_ends (hS : ArrayStore n Holds) :
    ∀ {s : κ} {live : List LiveFile}, Holds s c →
      (∀ file ∈ live, Stored n c file.descriptor file.reads) →
      Ends (readAll (live.map (·.descriptor))) s fun r s' => Holds s' c ∧
        r = .ok (live.map fun file => (file.reads .data, file.reads .resource)) := by
  intro s live h
  induction live generalizing s with
  | nil => exact fun _ => ⟨h, rfl⟩
  | cons file rest ih =>
    intro hstored
    have hfile := hstored file (List.mem_cons_self ..)
    rw [List.map_cons, readAll, ends_bind, ends_attempt]
    refine (hfile.readFork_ends hS h .data).mono ?_
    rintro _ s₁ ⟨h₁, rfl⟩
    dsimp only
    rw [ends_bind, ends_attempt]
    refine (hfile.readFork_ends hS h₁ .resource).mono ?_
    rintro _ s₂ ⟨h₂, rfl⟩
    refine (ih h₂ fun other ho => hstored other (List.mem_cons_of_mem _ ho)).bind ?_
      fun e s' ⟨_, he⟩ => nomatch he
    rintro forks s₃ ⟨h₃, hforks⟩
    rw [Except.ok.inj hforks]
    exact ⟨h₃, rfl⟩

/-- Freeing all files leaves none. -/
theorem freeAll_ends (hS : ArrayStore n Holds) :
    ∀ {s : κ × Bitmap} {live : List LiveFile}, FilesKept n Holds c₀ before s live c →
      Ends (freeAll (live.map (·.descriptor))) s fun r s' => r = .ok () ∧
        FilesKept n Holds c₀ before s' [] c := by
  intro s live h
  induction live generalizing s with
  | nil => exact ⟨rfl, h⟩
  | cons file rest ih =>
    obtain ⟨store, bitmap⟩ := s
    rw [List.map_cons, freeAll]
    refine (freeFork_ends hS (h.stored (List.mem_cons_self ..)) h.holds).bind ?_
      fun e s' hf => nomatch hf.ok
    exact fun _ s' hf => ih (h.freed hf)

/-! ## The volume -/

omit [BlockStore κ] in
/-- The volume was stocked with these files: the stored bitmap says what they left. -/
def Stocked (blocks : Nat) (Holds : κ → (Nat → Block) → Prop) (s : κ) (files : List StoredFile)
    (c : Nat → Block) : Prop :=
  ∃ bitmap : Bitmap, reservedBlocks blocks ≤ blocks ∧ bitmap.StoredAt blocks bitmapStart c ∧
    FilesKept blocks Holds c (Bitmap.reserved blocks (reservedBlocks blocks)) (s, bitmap)
      (files.map StoredFile.toLive) c

omit [BlockStore κ] in
/-- It is stocked with the same files when something else holds the same array. -/
theorem Stocked.carry {κ' : Type} {Holds' : κ' → (Nat → Block) → Prop} {s : κ} {s' : κ'}
    {files : List StoredFile} (h : Stocked blocks Holds s files c) (hs' : Holds' s' c) :
    Stocked blocks Holds' s' files c := by
  obtain ⟨bitmap, hle, hstored, hkept⟩ := h
  exact ⟨bitmap, hle, hstored, hkept.carry hs' (.refl _) (fun _ _ _ _ => rfl) fun _ _ => rfl⟩

omit [BlockStore κ] in
/-- The order of the files does not matter. -/
theorem Stocked.perm {s : κ} {files listed : List StoredFile} (h : Stocked blocks Holds s files c)
    (hp : listed.Perm files) : Stocked blocks Holds s listed c := by
  obtain ⟨bitmap, hle, hstored, hkept⟩ := h
  exact ⟨bitmap, hle, hstored, hkept.perm (hp.map _)⟩

omit [BlockStore κ] in
theorem Stocked.holds {s : κ} {files : List StoredFile} (h : Stocked blocks Holds s files c) :
    Holds s c := by
  obtain ⟨bitmap, -, -, hkept⟩ := h
  exact hkept.holds

/-- When a volume could be stocked, the bitmap and those files that could be written are on it. -/
theorem stock_ends (hS : ArrayStore blocks Holds) (hn : blocks < 0x100000000) (hpos : blocks ≠ 0)
    {s : κ} (h : Holds s c) (writes : List FileWrite) :
    Ends (stock blocks writes) s fun r s' => ∃ c', Holds s' c' ∧
      ∀ files, r = .ok files →
        (files.map (·.2)).Sublist writes ∧ Stocked blocks Holds s' files c' := by
  have h0 : (Bitmap.reserved blocks (reservedBlocks blocks)).isFree 0 = false := by
    rw [Bitmap.isFree_reserved, reservedBlocks, bitmapStart]
    exact decide_eq_false fun h => by omega
  have hempty : FilesKept blocks Holds c _ (s, Bitmap.reserved blocks (reservedBlocks blocks)) [] c :=
    .start h
  rw [stock, ends_bind, ends_withBeside]
  refine (storeAll_ends hS h0 writes hempty).mono ?_
  rintro _ ⟨store, bitmap⟩ ⟨files, c₁, rfl, hsub, hkept⟩
  rw [List.append_nil] at hkept
  have hblocks : bitmap.blocks = blocks := hkept.took.blocks_eq.trans (Bitmap.blocks_reserved ..)
  dsimp only
  rw [ends_bind]
  refine (Bitmap.write_ends hS hn bitmap bitmapStart hkept.holds).mono ?_
  rintro (e | ⟨⟩) s' ⟨c', hc', hother, hstored⟩
  · exact ⟨c', hc', nofun⟩
  · refine ends_ofExcept.mpr ⟨c', hc', fun files' hr => ?_⟩
    obtain rfl := Except.ok.inj hr
    have hstored := hstored rfl
    -- The bitmap was stored, so its last block is on the volume.
    have hle : reservedBlocks blocks ≤ blocks := by
      have hcount : Bitmap.storedBlocks blocks ≠ 0 := by
        unfold Bitmap.storedBlocks Bitmap.bitsPerBlock
        omega
      have hlast := (hstored (Bitmap.storedBlocks blocks - 1) (by rw [hblocks]; omega)).1
      unfold reservedBlocks
      omega
    -- A block of a file was free at first, so it is not one of the stored bitmap.
    have hfile : ∀ file ∈ files.map StoredFile.toLive, ∀ block ∈ file.descriptor.blocks c₁,
        c' block = c₁ block := by
      intro file hf block hb
      have hfree := hkept.free_of_mem hf hb
      rw [Bitmap.isFree_reserved] at hfree
      refine hother block (.inr ?_)
      rw [hblocks]
      exact (of_decide_eq_true hfree).1
    exact ⟨hsub, bitmap, hle, hstored, hkept.carry hc' (.refl _) hfile fun _ _ => rfl⟩

/-- The inventory of a volume that holds these files and nothing else. -/
structure Inventory.Lists (inventory : Inventory) (blocks : Nat) (files : List StoredFile) :
    Prop where
  freeBlocks_add : inventory.bitmap.freeBlocks + (files.map fun file => file.1.blocksUsed).sum +
    reservedBlocks blocks = blocks
  forks_eq : inventory.forks =
    files.map fun file => (file.2.contents .data, file.2.contents .resource)
  isFree_emptied (block : Nat) : inventory.emptied.isFree block = true ↔
    reservedBlocks blocks ≤ block ∧ block < blocks

/-- Taking inventory of a volume that was stocked succeeds, and what is found is what it was stocked
with. -/
theorem takeInventory_ends (hS : ArrayStore blocks Holds) (hn : blocks < 0x100000000) {s : κ}
    {files : List StoredFile} (h : Stocked blocks Holds s files c) :
    Ends (takeInventory blocks (files.map (·.1))) s fun r s' => Holds s' c ∧
      ∃ inventory, r = .ok inventory ∧ inventory.Lists blocks files := by
  obtain ⟨bitmap, hle, hstored, hkept⟩ := h
  have hblocks : bitmap.blocks = blocks := hkept.took.blocks_eq.trans (Bitmap.blocks_reserved ..)
  have hfiles : files.map (·.1) = (files.map StoredFile.toLive).map (·.descriptor) := by
    rw [List.map_map]
    rfl
  obtain ⟨loaded, s₁, hload, hs₁, halike⟩ := Bitmap.run_load hS hn hkept.holds hstored
  rw [hblocks] at hload
  have hkept₁ : FilesKept blocks Holds c _ (s₁, loaded) _ c :=
    hkept.congr hs₁ halike fun _ _ => rfl
  rw [takeInventory, hfiles, ends_bind, ends_of_run_eq_ok hload]
  refine (readAll_ends hS hs₁ fun file hf => hkept₁.stored hf).bind ?_ fun e s' ⟨_, he⟩ => nomatch he
  rintro forks s₂ ⟨hs₂, hforks⟩
  obtain rfl := Except.ok.inj hforks
  have hkept₂ : FilesKept blocks Holds c _ (s₂, loaded) _ c :=
    hkept₁.congr hs₂ (.refl _) fun _ _ => rfl
  rw [ends_bind, ends_withBeside]
  refine (freeAll_ends hS hkept₂).mono ?_
  rintro _ ⟨s₃, emptied⟩ ⟨rfl, hempty⟩
  -- What is free at the end is what the first bitmap of the volume had free.
  refine ⟨hempty.holds, _, rfl, ?_, ?_, fun block => ?_⟩
  · have hcount := hkept₁.freeBlocks_add
    rw [List.map_map] at hcount
    have hfree := Bitmap.freeBlocks_reserved hle
    rw [← hcount] at hfree
    exact hfree
  · rw [List.map_map]
    rfl
  · have htook : (Bitmap.reserved blocks (reservedBlocks blocks)).Took [] emptied := hempty.took
    rw [htook.isFree_eq, Bitmap.isFree_reserved]
    simp

end Diskette
