import Diskette.Fork.Freeing
import Diskette.Proofs.Fork.MiniEntry
import Diskette.Proofs.Fork.Writing

/-!
# Files in an array of blocks

What a descriptor stands for when the blocks of a store are those of an array: what its forks read,
and the blocks that it takes. A descriptor that a write returned stands for the data that was
written, and takes the blocks that the write took.

* `parseMini_keyBlock`: the mini entries of a key block are read back.
* `Descriptor.blocks`: the blocks that a file takes.
* `Stored`: the forks of a file read what they should.
* `Stored.readFork_ends`: and so they do.
* `commit_ends`, `writeFork_ends`, `writeExtended_ends`: a write, and what is left of one that fails.
-/

namespace Diskette

open Diskette.Action

/-! ## Key blocks -/

/-- The mini entries are where the forks of an extended file are looked for. -/
theorem slice_keyBlock (dataEntry resourceEntry : Bytes 8) (fork : Fork) :
    Bytes.ofSlice 8 (Draft.keyBlock dataEntry resourceEntry).data fork.entryOffset =
      match fork with
      | .data => dataEntry
      | .resource => resourceEntry := by
  refine Bytes.ext_byte fun i hi => ?_
  rw [Bytes.byte_ofSlice, if_pos hi]
  change (Draft.keyBlock dataEntry resourceEntry).byte _ = _
  have hdata : Fork.data.entryOffset = 0 := rfl
  have hresource : Fork.resource.entryOffset = 256 := rfl
  cases fork with
  | data =>
    rw [Draft.keyBlock, hdata, hresource, Bytes.byte_overwrite _ _ _ (by omega),
      resourceEntry.size_data, if_neg (by omega), Bytes.byte_overwrite _ _ _ (by omega),
      dataEntry.size_data, if_pos (by omega), Nat.zero_add, Nat.sub_zero]
    rfl
  | resource =>
    rw [Draft.keyBlock, hdata, hresource, Bytes.byte_overwrite _ _ _ (by omega),
      resourceEntry.size_data, if_pos (by omega), Nat.add_sub_cancel_left]
    rfl

/-- What goes with the data fork, or with the resource fork. -/
def Fork.pick {α : Type} (data resource : α) : Fork → α
  | .data => data
  | .resource => resource

/-- A mini entry of a key block is read as what was stored there. -/
theorem parseMini_keyBlock {dataEntry resourceEntry : Bytes 8}
    (answer : Fork → Except DiskError Descriptor)
    (hdata : Descriptor.parseMini dataEntry = answer .data)
    (hresource : Descriptor.parseMini resourceEntry = answer .resource) (fork : Fork) :
    Descriptor.parseMini
      (Bytes.ofSlice 8 (Draft.keyBlock dataEntry resourceEntry).data fork.entryOffset) =
        answer fork := by
  rw [slice_keyBlock]
  cases fork with
  | data => exact hdata
  | resource => exact hresource

/-! ## Files -/

variable {κ : Type} [BlockStore κ] {n : Nat} {Holds : κ → (Nat → Block) → Prop} {s : κ}
  {c c' : Nat → Block} {descriptor plain : Descriptor} {data resource : ByteArray}

namespace Descriptor

/-- The descriptor of a fork of a file, which is not extended any more. -/
def fork? (c : Nat → Block) (descriptor : Descriptor) (fork : Fork) : Except DiskError Descriptor :=
  match descriptor.storageType, fork with
  | .extended, fork => parseMini (Bytes.ofSlice 8 (c descriptor.keyBlock).data fork.entryOffset)
  | _, .data => .ok descriptor
  | _, .resource => .error .noResourceFork

/-- The blocks that a fork takes. -/
def plainBlocks (c : Nat → Block) (descriptor : Descriptor) : List Nat :=
  match descriptor.storageType.levels? with
  | some levels => Tree.blocks c levels descriptor.keyBlock
  | none => []

/-- The blocks that a fork of a file takes. -/
def forkBlocks (c : Nat → Block) (descriptor : Descriptor) (fork : Fork) : List Nat :=
  match descriptor.fork? c fork with
  | .ok plain => plain.plainBlocks c
  | .error _ => []

/-- The blocks that a file takes, for all its forks. -/
def blocks (c : Nat → Block) (descriptor : Descriptor) : List Nat :=
  match descriptor.storageType.levels? with
  | some levels => Tree.blocks c levels descriptor.keyBlock
  | none =>
    descriptor.forkBlocks c .data ++ descriptor.forkBlocks c .resource ++ [descriptor.keyBlock]

theorem fork?_extended (h : descriptor.storageType = .extended) (fork : Fork) :
    descriptor.fork? c fork =
      parseMini (Bytes.ofSlice 8 (c descriptor.keyBlock).data fork.entryOffset) := by
  obtain ⟨storageType, keyBlock, blocksUsed, eof⟩ := descriptor
  subst h
  rfl

theorem fork?_data (h : descriptor.storageType ≠ .extended) :
    descriptor.fork? c .data = .ok descriptor := by
  obtain ⟨storageType, keyBlock, blocksUsed, eof⟩ := descriptor
  cases storageType with
  | extended => exact absurd rfl h
  | seedling => rfl
  | sapling => rfl
  | tree => rfl

theorem fork?_resource (h : descriptor.storageType ≠ .extended) :
    descriptor.fork? c .resource = .error .noResourceFork := by
  obtain ⟨storageType, keyBlock, blocksUsed, eof⟩ := descriptor
  cases storageType with
  | extended => exact absurd rfl h
  | seedling => rfl
  | sapling => rfl
  | tree => rfl

end Descriptor

theorem Keeps.plainBlocks_eq {levels : Nat} (h : Keeps n c levels plain data) :
    plain.plainBlocks c = Tree.blocks c levels plain.keyBlock := by
  rw [Descriptor.plainBlocks, h.levels_eq]

theorem Keeps.ne_extended {levels : Nat} (h : Keeps n c levels plain data) :
    plain.storageType ≠ .extended := by
  intro he
  have := h.levels_eq
  rw [he] at this
  cases this

/-- The forks of a file keep what `contents` says, and where it has none there is an error. -/
structure Stored (n : Nat) (c : Nat → Block) (descriptor : Descriptor)
    (contents : Fork → Except DiskError ByteArray) : Prop where
  key_lt (h : descriptor.storageType = .extended) : descriptor.keyBlock < n
  exists_fork (h : descriptor.storageType = .extended) (fork : Fork) :
    ∃ plain, descriptor.fork? c fork = .ok plain
  ok {fork : Fork} {plain : Descriptor} (h : descriptor.fork? c fork = .ok plain) :
    ∃ levels data, contents fork = .ok data ∧ Keeps n c levels plain data
  error {fork : Fork} {e : DiskError} (h : descriptor.fork? c fork = .error e) :
    contents fork = .error e

variable {contents : Fork → Except DiskError ByteArray} {fork : Fork}

namespace Descriptor

theorem blocks_extended (h : descriptor.storageType = .extended) :
    descriptor.blocks c = descriptor.forkBlocks c .data ++ descriptor.forkBlocks c .resource ++
      [descriptor.keyBlock] := by
  rw [blocks, h]
  rfl

theorem blocks_plain (h : descriptor.storageType ≠ .extended) :
    descriptor.blocks c = descriptor.plainBlocks c := by
  obtain ⟨storageType, keyBlock, blocksUsed, eof⟩ := descriptor
  cases storageType with
  | extended => exact absurd rfl h
  | seedling => rfl
  | sapling => rfl
  | tree => rfl

theorem keyBlock_mem_blocks (h : descriptor.storageType = .extended) :
    descriptor.keyBlock ∈ descriptor.blocks c := by
  rw [blocks_extended h]
  exact List.mem_append_right _ (List.mem_singleton_self _)

/-- The blocks of a fork are blocks of the file. -/
theorem plainBlocks_subset (h : descriptor.fork? c fork = .ok plain) :
    plain.plainBlocks c ⊆ descriptor.blocks c := by
  by_cases he : descriptor.storageType = .extended
  · have hfork : descriptor.forkBlocks c fork = plain.plainBlocks c := by rw [forkBlocks, h]
    rw [← hfork, blocks_extended he]
    intro block hb
    refine List.mem_append_left _ (List.mem_append.mpr ?_)
    cases fork with
    | data => exact .inl hb
    | resource => exact .inr hb
  · cases fork with
    | data =>
      rw [fork?_data he] at h
      obtain rfl := Except.ok.inj h
      rw [blocks_plain he]
      exact fun _ hb => hb
    | resource =>
      rw [fork?_resource he] at h
      cases h

theorem fork?_congr (hc : ∀ block ∈ descriptor.blocks c, c' block = c block) (fork : Fork) :
    descriptor.fork? c' fork = descriptor.fork? c fork := by
  by_cases he : descriptor.storageType = .extended
  · rw [fork?_extended he, fork?_extended he, hc _ (keyBlock_mem_blocks he)]
  · cases fork with
    | data => rw [fork?_data he, fork?_data he]
    | resource => rw [fork?_resource he, fork?_resource he]

theorem plainBlocks_congr (hc : ∀ block ∈ plain.plainBlocks c, c' block = c block) :
    plain.plainBlocks c' = plain.plainBlocks c := by
  unfold plainBlocks at hc ⊢
  cases hl : plain.storageType.levels? with
  | none => rfl
  | some levels =>
    rw [hl] at hc
    exact Tree.blocks_congr hc

theorem forkBlocks_congr (hc : ∀ block ∈ descriptor.blocks c, c' block = c block) (fork : Fork) :
    descriptor.forkBlocks c' fork = descriptor.forkBlocks c fork := by
  unfold forkBlocks
  rw [fork?_congr hc]
  cases hf : descriptor.fork? c fork with
  | error e => rfl
  | ok plain => exact plainBlocks_congr fun block hb => hc block (plainBlocks_subset hf hb)

/-- Two arrays that agree on the blocks of a file have the same file. -/
theorem blocks_congr (hc : ∀ block ∈ descriptor.blocks c, c' block = c block) :
    descriptor.blocks c' = descriptor.blocks c := by
  by_cases he : descriptor.storageType = .extended
  · rw [blocks_extended he, blocks_extended he, forkBlocks_congr hc, forkBlocks_congr hc]
  · rw [blocks_plain he] at hc
    rw [blocks_plain he, blocks_plain he, plainBlocks_congr hc]

end Descriptor

theorem Stored.congr (h : Stored n c descriptor contents)
    (hc : ∀ block ∈ descriptor.blocks c, c' block = c block) : Stored n c' descriptor contents where
  key_lt := h.key_lt
  exists_fork he fork := by
    rw [Descriptor.fork?_congr hc]
    exact h.exists_fork he fork
  ok hf := by
    rw [Descriptor.fork?_congr hc] at hf
    obtain ⟨levels, data, hdata, hkeeps⟩ := h.ok hf
    refine ⟨levels, data, hdata, hkeeps.congr fun block hb => hc block ?_⟩
    rw [← hkeeps.plainBlocks_eq] at hb
    exact Descriptor.plainBlocks_subset hf hb
  error hf := by
    rw [Descriptor.fork?_congr hc] at hf
    exact h.error hf

/-! ## Reading files -/

theorem normalize_extended (he : descriptor.storageType = .extended) (fork : Fork) :
    (normalize descriptor fork : Action κ Descriptor) = (do
      let key ← BlockStore.readBlock descriptor.keyBlock
      Action.ofExcept (Descriptor.parseMini (Bytes.ofSlice 8 key.data fork.entryOffset))) := by
  unfold normalize
  rw [he]

theorem normalize_ends (hS : ArrayStore n Holds) (h : Holds s c)
    (hkey : descriptor.storageType = .extended → descriptor.keyBlock < n) (fork : Fork) :
    Ends (normalize descriptor fork) s fun r s' => Holds s' c ∧ r = descriptor.fork? c fork := by
  by_cases he : descriptor.storageType = .extended
  · obtain ⟨s', hrun⟩ := hS.read_ok h (hkey he)
    have hends := (hS.read_ends h descriptor.keyBlock).of_ok hrun
    rw [normalize_extended he, Descriptor.fork?_extended he, ends_bind, ends_of_run_eq_ok hrun]
    dsimp only
    rw [ends_ofExcept]
    exact ⟨hends.1, rfl⟩
  · cases fork with
    | data =>
      rw [normalize_of_not_extended he, Descriptor.fork?_data he]
      exact ⟨h, rfl⟩
    | resource =>
      rw [Descriptor.fork?_resource he]
      unfold normalize
      split
      · next he' => exact absurd he' he
      · next hf _ => cases hf
      · exact ⟨h, rfl⟩

/-- A file reads what its forks keep. -/
theorem Stored.readFork_ends (hS : ArrayStore n Holds) (h : Stored n c descriptor contents)
    (hs : Holds s c) (fork : Fork) :
    Ends (readFork descriptor fork) s fun r s' => Holds s' c ∧ r = contents fork := by
  unfold readFork
  refine (normalize_ends hS hs h.key_lt fork).bind ?_ fun e s' ⟨hs', he⟩ =>
    ⟨hs', (h.error he.symm).symm⟩
  rintro plain s' ⟨hs', hf⟩
  obtain ⟨levels, data, hdata, hkeeps⟩ := h.ok hf.symm
  obtain ⟨bytes, s'', hrun, hs'', hslice⟩ := hkeeps.run_readPlain hS hs'
  rw [hkeeps.levels_eq]
  dsimp only
  rw [ends_bind, ends_of_run_eq_ok hrun]
  exact ⟨hs'', by rw [hdata, hslice]⟩

/-! ## Writing files -/

/-- What a file of one fork reads. -/
def plainContents (data : ByteArray) : Fork → Except DiskError ByteArray
  | .data => .ok data
  | .resource => .error .noResourceFork

/-- What an extended file reads. -/
def extendedContents (data resource : ByteArray) : Fork → Except DiskError ByteArray
  | .data => .ok data
  | .resource => .ok resource

/-- What a descriptor that was just returned stands for, and what the file takes. -/
structure Filed (n : Nat) (c : Nat → Block) (descriptor : Descriptor)
    (contents : Fork → Except DiskError ByteArray) (new : List Nat) : Prop where
  stored : Stored n c descriptor contents
  perm : (descriptor.blocks c).Perm new

namespace Draft

variable {new new' : List Nat} {draft : Draft κ}

theorem Written.filed (h : Written n c descriptor data new) :
    Filed n c descriptor (plainContents data) new := by
  obtain ⟨levels, hkeeps, hperm⟩ := h.keeps
  have hne := hkeeps.ne_extended
  refine ⟨⟨fun he => absurd he hne, fun he => absurd he hne, fun {fork plain} hf => ?_,
    fun {fork e} hf => ?_⟩, ?_⟩
  · cases fork with
    | data =>
      rw [Descriptor.fork?_data hne] at hf
      obtain rfl := Except.ok.inj hf
      exact ⟨levels, data, rfl, hkeeps⟩
    | resource =>
      rw [Descriptor.fork?_resource hne] at hf
      cases hf
  · cases fork with
    | data =>
      rw [Descriptor.fork?_data hne] at hf
      cases hf
    | resource =>
      rw [Descriptor.fork?_resource hne] at hf
      obtain rfl := Except.error.inj hf
      rfl
  · rw [Descriptor.blocks_plain hne, hkeeps.plainBlocks_eq]
    exact hperm

/-- A fork that was written is found through its mini entry. -/
private theorem Written.parseMini_eq {blocksUsed : Nat} {entry : Bytes 8}
    (h : Written n c plain data new) (ht : { plain with blocksUsed }.toMini = .ok entry) :
    Descriptor.parseMini entry = .ok { plain with blocksUsed } := by
  obtain ⟨levels, hkeeps, -⟩ := h.keeps
  exact Descriptor.parseMini_toMini ht hkeeps.ne_extended h.eof_le

private theorem Written.keeps_used (h : Written n c plain data new) (blocksUsed : Nat) :
    ∃ levels, Keeps n c levels { plain with blocksUsed } data ∧
      ({ plain with blocksUsed }.plainBlocks c).Perm new := by
  obtain ⟨levels, hkeeps, hperm⟩ := h.keeps
  have hkeeps' : Keeps n c levels { plain with blocksUsed } data :=
    ⟨hkeeps.levels_eq, hkeeps.eof_eq, hkeeps.size_le, hkeeps.lt_size, hkeeps.leaf_eq⟩
  refine ⟨levels, hkeeps', ?_⟩
  rw [hkeeps'.plainBlocks_eq]
  exact hperm

/-- The key block of an extended file, once both forks are written. -/
private theorem filed_extended {dataFork resourceFork : Descriptor} {dataUsed resourceUsed key : Nat}
    {dataEntry resourceEntry : Bytes 8} (hd : Written n c dataFork data new)
    (hr : Written n c resourceFork resource new') (hkey : c key = keyBlock dataEntry resourceEntry)
    (hlt : key < n) (hdt : { dataFork with blocksUsed := dataUsed }.toMini = .ok dataEntry)
    (hrt : { resourceFork with blocksUsed := resourceUsed }.toMini = .ok resourceEntry) (used : Nat) :
    Filed n c ⟨.extended, key, used, 512⟩ (extendedContents data resource)
      (new' ++ (new ++ [key])) := by
  -- Each fork is read back from its own half of the key block.
  have hfork (fork : Fork) : Descriptor.fork? c ⟨.extended, key, used, 512⟩ fork =
      match fork with
      | .data => .ok { dataFork with blocksUsed := dataUsed }
      | .resource => .ok { resourceFork with blocksUsed := resourceUsed } := by
    rw [Descriptor.fork?_extended rfl, hkey, slice_keyBlock]
    cases fork with
    | data => exact hd.parseMini_eq hdt
    | resource => exact hr.parseMini_eq hrt
  obtain ⟨dataLevels, hdk, hdp⟩ := hd.keeps_used dataUsed
  obtain ⟨resourceLevels, hrk, hrp⟩ := hr.keeps_used resourceUsed
  refine ⟨⟨fun _ => hlt, fun _ fork => ?_, fun {fork plain} hf => ?_, fun {fork e} hf => ?_⟩, ?_⟩
  · rw [hfork]
    cases fork with
    | data => exact ⟨_, rfl⟩
    | resource => exact ⟨_, rfl⟩
  · rw [hfork] at hf
    cases fork with
    | data =>
      obtain rfl := Except.ok.inj hf
      exact ⟨dataLevels, data, rfl, hdk⟩
    | resource =>
      obtain rfl := Except.ok.inj hf
      exact ⟨resourceLevels, resource, rfl, hrk⟩
  · rw [hfork] at hf
    cases fork with
    | data => cases hf
    | resource => cases hf
  · have hdata : Descriptor.forkBlocks c ⟨.extended, key, used, 512⟩ .data =
        { dataFork with blocksUsed := dataUsed }.plainBlocks c := by
      rw [Descriptor.forkBlocks, hfork]
    have hresource : Descriptor.forkBlocks c ⟨.extended, key, used, 512⟩ .resource =
        { resourceFork with blocksUsed := resourceUsed }.plainBlocks c := by
      rw [Descriptor.forkBlocks, hfork]
    rw [Descriptor.blocks_extended rfl, hdata, hresource, ← List.append_assoc]
    -- The files are told apart by their blocks as a set, so the order in which they were taken is
    -- free.
    exact ((hdp.append hrp).trans List.perm_append_comm).append (.refl _)

/-- An extended file is written. -/
theorem writeBoth_ends (hS : ArrayStore n Holds) (h : Holds draft.store c)
    (h0 : draft.bitmap.isFree 0 = false) (data resource : ByteArray) :
    Ends (writeBoth data resource) draft fun r draft' =>
      ∃ c' new, Grew Holds draft c draft' c' new ∧ ∀ descriptor, r = .ok descriptor →
        Filed n c' descriptor (extendedContents data resource) new ∧
          descriptor.blocksUsed = draft'.taken.length := by
  unfold writeBoth
  refine (takeBlock_ends h).bind ?_ fun e draft₁ hg => ⟨c, [], hg, fun _ hr => by cases hr⟩
  intro key draft₁ hg₁
  refine (writePlain_ends hS hg₁.holds (hg₁.isFree_zero h0) data).bind ?_
    fun e draft₂ ⟨c₂, new₂, hg₂, _⟩ => ⟨c₂, _, hg₁.trans hg₂, fun _ hr => by cases hr⟩
  rintro dataFork draft₂ ⟨c₂, new₂, hg₂, hwritten₂⟩
  have hg₁₂ := hg₁.trans hg₂
  refine ends_bind.mpr (ends_ask.mpr ?_)
  dsimp only
  refine (writePlain_ends hS hg₂.holds (hg₁₂.isFree_zero h0) resource).bind ?_
    fun e draft₃ ⟨c₃, new₃, hg₃, _⟩ => ⟨c₃, _, hg₁₂.trans hg₃, fun _ hr => by cases hr⟩
  rintro resourceFork draft₃ ⟨c₃, new₃, hg₃, hwritten₃⟩
  have hg := hg₁₂.trans hg₃
  simp only [ends_bind, ends_ofExcept]
  -- Either entry may be too large for its field, and then all that was taken is reported.
  generalize hdt : Descriptor.toMini { dataFork with blocksUsed := dataFork.blocksUsed - 1 } = rd
  cases rd with
  | error e => exact ⟨c₃, _, hg, fun _ hr => by cases hr⟩
  | ok dataEntry =>
    dsimp only
    generalize hrt : Descriptor.toMini { resourceFork with
      blocksUsed := resourceFork.blocksUsed - draft₂.taken.length } = rr
    cases rr with
    | error e => exact ⟨c₃, _, hg, fun _ hr => by cases hr⟩
    | ok resourceEntry =>
      dsimp only
      have hkey₂ : key ∉ new₂ := hg₁.notMem_of_mem hg₂ (List.mem_singleton_self key)
      have hkey₁₂ : key ∈ new₂ ++ [key] := List.mem_append_right _ (List.mem_singleton_self key)
      have hkey₃ : key ∉ new₃ := hg₁₂.notMem_of_mem hg₃ hkey₁₂
      refine (hg.putBlock_ends hS (List.mem_append_right _ hkey₁₂) _).mono ?_
      rintro (e | _) draft₄ hg₄
      · exact ⟨c₃, _, hg₄, fun _ hr => by cases hr⟩
      · obtain ⟨hg₄, hlt⟩ := hg₄
        refine ends_ask.mpr ⟨_, _, hg₄, fun descriptor hr => ?_⟩
        obtain rfl := Except.ok.inj hr
        refine ⟨filed_extended ?_ ?_ (Function.update_self ..) hlt hdt hrt _, rfl⟩
        -- The data fork was written first: neither the other fork nor the key block has touched its
        -- blocks.
        · refine ((hwritten₂ dataFork rfl).1).congr fun block hb => ?_
          have hne : block ≠ key := fun he => hkey₂ (he.symm ▸ hb)
          have hold : block ∉ new₃ := hg₁₂.notMem_of_mem hg₃ (List.mem_append_left _ hb)
          rw [Function.update_of_ne hne, hg₃.contents_eq hold]
        · refine ((hwritten₃ resourceFork rfl).1).congr fun block hb => ?_
          have hne : block ≠ key := fun he => hkey₃ (he.symm ▸ hb)
          rw [Function.update_of_ne hne]

end Draft

/-! ## The end of a write -/

/-- A file was added: it takes blocks that were free, and nothing else was changed. -/
structure Added (n : Nat) (c : Nat → Block) (before : Bitmap) (descriptor : Descriptor)
    (contents : Fork → Except DiskError ByteArray) (c' : Nat → Block) (after : Bitmap) : Prop where
  stored : Stored n c' descriptor contents
  took : before.Took (descriptor.blocks c') after
  used_eq : descriptor.blocksUsed = (descriptor.blocks c').length
  contents_eq {block : Nat} (h : block ∉ descriptor.blocks c') : c' block = c block

/-- What comes of a write to a store and a bitmap: a file, or nothing but changes of free blocks. -/
def Adds (n : Nat) (Holds : κ → (Nat → Block) → Prop) (c : Nat → Block) (before : Bitmap)
    (contents : Fork → Except DiskError ByteArray) (r : Except DiskError Descriptor)
    (after : κ × Bitmap) : Prop :=
  ∃ c', Holds after.1 c' ∧ match r with
    | .ok descriptor => Added n c before descriptor contents c' after.2
    | .error _ => before.Alike after.2 ∧ ∀ block, before.isFree block = false → c' block = c block

variable {bitmap : Bitmap}

omit [BlockStore κ] in
private theorem commit_ends {write : Action (Draft κ) Descriptor} {store : κ}
    (h : Ends write ⟨store, bitmap, []⟩ fun r draft' =>
      ∃ c' new, Draft.Grew Holds ⟨store, bitmap, []⟩ c draft' c' new ∧ ∀ descriptor,
        r = .ok descriptor → Filed n c' descriptor contents new ∧
          descriptor.blocksUsed = draft'.taken.length) :
    Ends (Draft.commit write) (store, bitmap) (Adds n Holds c bitmap contents) := by
  unfold Ends EStateM.run Draft.commit at *
  dsimp only
  cases hr : write ⟨store, bitmap, []⟩ with
  | ok descriptor draft' =>
    rw [hr] at h
    obtain ⟨c', new, hg, hok⟩ := h
    obtain ⟨hfiled, hused⟩ := hok descriptor rfl
    refine ⟨c', hg.holds, hfiled.stored, hg.took.perm hfiled.perm, ?_, fun hb => ?_⟩
    · rw [hused, hg.taken_eq, List.append_nil, hfiled.perm.length_eq]
    · exact hg.contents_eq fun hn => hb (hfiled.perm.mem_iff.mpr hn)
  | error e draft' =>
    rw [hr] at h
    obtain ⟨c', new, hg, -⟩ := h
    have htaken : draft'.taken = new := hg.taken_eq.trans (List.append_nil new)
    refine ⟨c', hg.holds, ?_, fun block hb => hg.contents_eq fun hn => ?_⟩
    · rw [htaken]
      exact hg.took.releaseAll
    · rw [hg.took.free hn] at hb
      cases hb

/-- A file of one fork is added. -/
theorem writeFork_ends (hS : ArrayStore n Holds) (h : Holds s c) (h0 : bitmap.isFree 0 = false)
    (data : ByteArray) :
    Ends (writeFork data) (s, bitmap) (Adds n Holds c bitmap (plainContents data)) := by
  refine commit_ends ((Draft.writePlain_ends hS h h0 data).mono ?_)
  rintro r draft' ⟨c', new, hg, hok⟩
  exact ⟨c', new, hg, fun descriptor hr => ⟨(hok descriptor hr).1.filed, (hok descriptor hr).2⟩⟩

/-- An extended file is added. -/
theorem writeExtended_ends (hS : ArrayStore n Holds) (h : Holds s c) (h0 : bitmap.isFree 0 = false)
    (data resource : ByteArray) :
    Ends (writeExtended data resource) (s, bitmap)
      (Adds n Holds c bitmap (extendedContents data resource)) :=
  commit_ends (Draft.writeBoth_ends hS h h0 data resource)

end Diskette
