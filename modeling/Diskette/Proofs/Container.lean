import Diskette.Proofs.Device.Opened

/-!
# The positions of blocks

In a file that was accepted as an image, whatever its bytes are, every block takes 512 positions of
its own, behind the header and before the end of the file, unless blocks are encoded on tracks.
Reading and writing blocks stays there, so nothing between, before and behind the blocks is changed,
apart from the checksum in a DiskCopy 4.2 header.

* `Layout.position?`, `position_injective`, `Fits.position_lt`: where the blocks are.
* `readBlock_ends`, `writeBlock_ends`, `finish_ends`: what each access comes to and what it changes.
* `Run.invariant`: what accesses preserve.
* `openFile_safe`: accepted files are safe to read and to write.
-/

namespace Diskette

open Diskette.Action Header

/-- The bytes at the positions of a block. -/
def bytesAt (position : Nat → Nat → Nat) (data : ByteArray) (block : Nat) : Block :=
  .tabulate 512 fun i => byteAt data (position block i)

theorem byte_bytesAt (position : Nat → Nat → Nat) (data : ByteArray) (block : Nat) {i : Nat}
    (hi : i < 512) : (bytesAt position data block).byte i = byteAt data (position block i) := by
  rw [bytesAt, Bytes.byte_tabulate, if_pos hi]

theorem bytesAt_congr {position : Nat → Nat → Nat} {data data' : ByteArray} {block : Nat}
    (h : ∀ i, i < 512 → byteAt data' (position block i) = byteAt data (position block i)) :
    bytesAt position data' block = bytesAt position data block := by
  refine Bytes.ext_byte fun i hi => ?_
  rw [byte_bytesAt _ _ _ hi, byte_bytesAt _ _ _ hi, h i hi]

namespace Layout

variable {layout : Layout} {position : Nat → Nat → Nat} {storage : Storage} {host : Host}
  {size block i : Nat}

/-- Where byte `i` of a block is, unless blocks are encoded on tracks. -/
def position? : Layout → Option (Nat → Nat → Nat)
  | sequential layout => some layout.position
  | interleaved layout => some layout.position
  | nibble _ => none

theorem exists_position (h : layout.format ≠ .nibble) :
    ∃ position, layout.position? = some position := by
  cases layout with
  | sequential layout => exact ⟨_, rfl⟩
  | interleaved layout => exact ⟨_, rfl⟩
  | nibble layout => exact absurd rfl h

theorem base_le_position (h : layout.position? = some position) (block i : Nat) :
    layout.base ≤ position block i := by
  cases layout with
  | sequential layout =>
    cases h
    exact layout.base_le_position block i
  | interleaved layout =>
    cases h
    exact layout.base_le_position block i
  | nibble layout => cases h

theorem Interleaved.position_injective {layout : Interleaved} {a b i j : Nat} (hi : i < 512)
    (hj : j < 512) (h : layout.position a i = layout.position b j) : a = b ∧ i = j := by
  obtain rfl := position_inj hi hj h
  refine ⟨rfl, ?_⟩
  unfold position at h
  split at h
  · split at h
    · omega
    · have := (sectorOffset_inj (by omega) (by omega) h).2
      exact absurd this (firstHalf_ne_secondHalf a a)
  · split at h
    · have := (sectorOffset_inj (by omega) (by omega) h).2
      exact absurd this.symm (firstHalf_ne_secondHalf a a)
    · omega

/-- No position is shared. -/
theorem position_injective (h : layout.position? = some position) {a b i j : Nat} (hi : i < 512)
    (hj : j < 512) (he : position a i = position b j) : a = b ∧ i = j := by
  cases layout with
  | sequential layout =>
    cases h
    obtain rfl := Sequential.position_inj hi hj he
    unfold Sequential.position at he
    exact ⟨rfl, by omega⟩
  | interleaved layout =>
    cases h
    exact Interleaved.position_injective hi hj he
  | nibble layout => cases h

/-- Every position is in the file. -/
theorem Fits.position_lt (hf : layout.Fits size) (h : layout.position? = some position)
    (hb : block < layout.blocks) (hi : i < 512) : position block i < size := by
  cases layout with
  | sequential layout =>
    cases h
    have hf : layout.base + layout.blocks * 512 ≤ size := hf
    have hb : block < layout.blocks := hb
    unfold Sequential.position Sequential.offset
    omega
  | interleaved layout =>
    cases h
    have hend := Interleaved.sectorOffset_add_le hf.1 hf.2 hb
    have hfirst := hend (firstHalf block)
    have hsecond := hend (secondHalf block)
    unfold Interleaved.position Interleaved.firstOffset Interleaved.secondOffset
    split <;> omega
  | nibble layout => cases h

theorem Fits.holds (hf : layout.Fits size) (h : layout.position? = some position)
    (data : ByteArray) : layout.Holds size data (bytesAt position data) := by
  have hplaced (blocks : Nat) : Placed position blocks data (bytesAt position data) :=
    fun block _ i hi => (byte_bytesAt position data block hi).symm
  cases layout with
  | sequential layout =>
    cases h
    exact ⟨hf, hplaced _⟩
  | interleaved layout =>
    cases h
    exact ⟨hf.1, hf.2, hplaced _⟩
  | nibble layout => cases h

/-! ## Accesses to a layout -/

private theorem checkBlock_of_not_lt {blocks : Nat} (h : ¬ block < blocks) :
    checkBlock block blocks = .error (.blockOutOfRange block blocks) := if_neg h

/-- A block is read from its positions. -/
theorem Fits.readBlock_ends (hf : layout.Fits storage.size) (h : layout.position? = some position)
    (hs : storage.Backed host) (block : Nat) :
    Ends (readBlock storage block) (layout, host) fun r s => s = (layout, host) ∧
      r = if block < layout.blocks then .ok (bytesAt position (host.contents storage.file) block)
        else .error (.blockOutOfRange block layout.blocks) := by
  have hholds := hf.holds h (host.contents storage.file)
  cases layout with
  | sequential layout =>
    refine (ends_of_keeping rfl).mpr (ends_ask.mpr ⟨rfl, ?_⟩)
    change _ = if block < layout.blocks then .ok _ else
      Except.error (DiskError.blockOutOfRange block layout.blocks)
    split
    · next hb => exact Sequential.readBlock_eq hs hholds hb
    · next hb =>
      rw [Sequential.readBlock, checkBlock_of_not_lt hb]
      rfl
  | interleaved layout =>
    refine (ends_of_keeping rfl).mpr (ends_ask.mpr ⟨rfl, ?_⟩)
    change _ = if block < layout.blocks then .ok _ else
      Except.error (DiskError.blockOutOfRange block layout.blocks)
    split
    · next hb => exact Interleaved.readBlock_eq hs hholds hb
    · next hb =>
      rw [Interleaved.readBlock, checkBlock_of_not_lt hb]
      rfl
  | nibble layout => cases h

/-- What a write of a block to a storage comes to and what it does to the file. -/
def WriteOutcome (storage : Storage) (position : Nat → Nat → Nat) (blocks block : Nat) (data : Block)
    (before : Host) (r : Except DiskError Unit) (after : Host) : Prop :=
  if block < blocks then
    if storage.readOnly then r = .error .readOnly ∧ after = before
    else r = .ok () ∧ BlockWritten storage.file position block data before after
  else r = .error (.blockOutOfRange block blocks) ∧ after = before

/-- A write that starts with a check of the block. -/
private theorem ends_checked {blocks : Nat} {data : Block} {write : Action Host Unit}
    (hro : storage.readOnly = true → write.run host = .error .readOnly host)
    (hw : storage.readOnly = false → block < blocks →
      ∃ after, (do Action.ofExcept (checkBlock block blocks); write).run host = .ok () after ∧
        BlockWritten storage.file position block data host after) :
    Ends (do Action.ofExcept (checkBlock block blocks); write) host
      (WriteOutcome storage position blocks block data host) := by
  unfold WriteOutcome
  by_cases hb : block < blocks
  · simp only [hb, if_true]
    cases hr : storage.readOnly with
    | false =>
      obtain ⟨after, hrun, hwritten⟩ := hw hr hb
      exact (ends_of_run_eq_ok hrun).mpr ⟨rfl, hwritten⟩
    | true =>
      have hrun : (do Action.ofExcept (checkBlock block blocks); write).run host =
          .error .readOnly host := by
        rw [EStateM.run_bind, checkBlock_eq_ok_iff.mpr hb]
        exact hro hr
      exact (ends_of_run_eq_error hrun).mpr ⟨rfl, rfl⟩
  · simp only [hb, if_false]
    rw [checkBlock_of_not_lt hb]
    exact ⟨rfl, rfl⟩

/-- A block is written to its positions. -/
theorem Fits.writeBlock_ends (hf : layout.Fits storage.size) (h : layout.position? = some position)
    (hs : storage.Backed host) (block : Nat) (data : Block) :
    Ends (writeBlock storage block data) (layout, host) fun r s => s.1 = layout ∧
      WriteOutcome storage position layout.blocks block data host r s.2 := by
  cases layout with
  | sequential layout =>
    cases h
    refine (ends_of_keeping rfl).mpr ((ends_checked (fun hro => ?_) fun hro hb => ?_).mono
      fun _ _ hr => ⟨rfl, hr⟩)
    · exact Storage.run_write_of_readOnly hro ..
    · exact Sequential.run_writeBlock hs hro hf hb data
  | interleaved layout =>
    cases h
    refine (ends_of_keeping rfl).mpr ((ends_checked (fun hro => ?_) fun hro hb => ?_).mono
      fun _ _ hr => ⟨rfl, hr⟩)
    · rw [EStateM.run_bind, Storage.run_write_of_readOnly hro]
    · exact Interleaved.run_writeBlock hs hro hf.1 hf.2 hb data
  | nibble layout => cases h

end Layout

/-! ## Accesses to a container -/

namespace Container

open Layout

variable {container : Container} {position : Nat → Nat → Nat} {storage : Storage}
  {host : Host} {start state : Container × Host} {contents original : Nat → Block} {block : Nat}

theorem ends_onLayout {α : Type} {act : Action (Layout × Host) α}
    {Q : Except DiskError α → Container × Host → Prop} :
    Ends (onLayout act) (container, host) Q ↔ Ends act (container.layout, host) fun r s =>
      Q r (⟨container.envelope, s.1⟩, s.2) := ends_zoom

@[simp] theorem layout_noteModified (container : Container) :
    container.noteModified.layout = container.layout := by
  obtain ⟨envelope, layout⟩ := container
  cases envelope <;> rfl

@[simp] theorem format_noteModified (container : Container) :
    container.noteModified.format = container.format := by
  obtain ⟨envelope, layout⟩ := container
  cases envelope <;> rfl

theorem Fits.noteModified {size : Nat} (h : container.Fits size) :
    container.noteModified.Fits size := by
  obtain ⟨envelope, layout⟩ := container
  cases envelope with
  | bare => exact h
  | twoImg header => exact h
  | davex => exact h
  | diskCopy header stale =>
    refine ⟨h.header_le, h.layout, fun header' stale' he => ?_⟩
    cases he
    exact h.checksum header stale rfl

theorem Fits.size_le_base {size : Nat} (h : container.Fits size)
    (hformat : container.format = .diskCopy42) : 84 ≤ container.layout.base := by
  obtain ⟨envelope, layout⟩ := container
  cases envelope with
  | bare => cases layout <;> cases hformat
  | twoImg header => cases hformat
  | davex => cases hformat
  | diskCopy header stale => exact (h.checksum header stale rfl).1

theorem readBlock_ends (hf : container.layout.Fits storage.size)
    (h : container.layout.position? = some position) (hs : storage.Backed host) (block : Nat) :
    Ends (readBlock storage block) (container, host) fun r s => s = (container, host) ∧
      r = if block < container.blocks then
          .ok (bytesAt position (host.contents storage.file) block)
        else .error (.blockOutOfRange block container.blocks) := by
  refine ends_onLayout.mpr ((hf.readBlock_ends h hs block).mono fun r s hr => ⟨?_, hr.2⟩)
  rw [hr.1]

theorem writeBlock_ends (hf : container.layout.Fits storage.size)
    (h : container.layout.position? = some position) (hs : storage.Backed host) (block : Nat)
    (data : Block) :
    Ends (writeBlock storage block data) (container, host) fun r s =>
      s.1 = (if r = .ok () then container.noteModified else container) ∧
      WriteOutcome storage position container.blocks block data host r s.2 := by
  refine ends_bind.mpr (ends_onLayout.mpr ((hf.writeBlock_ends h hs block data).mono fun r s hr => ?_))
  obtain ⟨layout, after⟩ := s
  obtain ⟨rfl, hwrite⟩ := hr
  cases r with
  | ok _ => exact ⟨rfl, hwrite⟩
  | error e => exact ⟨rfl, hwrite⟩

/-- Bringing the envelope up to date changes the checksum and nothing else. -/
theorem finish_ends (hf : container.Fits storage.size) (hs : storage.Backed host) :
    Ends (finish storage) (container, host) fun _ s =>
      s.1.layout = container.layout ∧ s.1.format = container.format ∧ s.1.Fits storage.size ∧
      Host.Kept storage.file
        (fun k => container.format = .diskCopy42 ∧ 0x48 ≤ k ∧ k < 0x4C) host s.2 := by
  obtain ⟨envelope, layout⟩ := container
  -- Nothing but a stale DiskCopy checksum makes this do anything.
  have hnothing (hrun : (finish storage).run (⟨envelope, layout⟩, host) =
      .ok () (⟨envelope, layout⟩, host)) :
      Ends (finish storage) (⟨envelope, layout⟩, host) fun _ s =>
        s.1.layout = layout ∧ s.1.format = (⟨envelope, layout⟩ : Container).format ∧
        s.1.Fits storage.size ∧ Host.Kept storage.file (fun k =>
          (⟨envelope, layout⟩ : Container).format = .diskCopy42 ∧ 0x48 ≤ k ∧ k < 0x4C) host s.2 :=
    (ends_of_run_eq_ok hrun).mpr ⟨rfl, rfl, hf, .refl⟩
  cases envelope with
  | bare => exact hnothing rfl
  | twoImg header => exact hnothing rfl
  | davex => exact hnothing rfl
  | diskCopy header stale =>
    cases stale with
    | false => exact hnothing rfl
    | true =>
      obtain ⟨hbase, hle⟩ := hf.checksum header true rfl
      have hrefresh := Device.run_refreshChecksum hs hle
      unfold Ends EStateM.run finish at *
      dsimp only
      rw [hrefresh]
      cases hro : storage.readOnly with
      | true => exact ⟨rfl, rfl, hf, .refl⟩
      | false =>
        refine ⟨rfl, rfl, ⟨hf.header_le, hf.layout, fun header' stale' he => ?_⟩,
          (Device.kept_refreshChecksum hs hle).mono fun k hk => ⟨rfl, hk⟩⟩
        cases he
        exact ⟨hbase, hle⟩

/-! ## Runs of accesses -/

/-- What can be asked of a container. -/
inductive Access where
  | read (block : Nat)
  | write (block : Nat) (data : Block)
  | finish

def Access.perform (storage : Storage) : Access → Action (Container × Host) Unit
  | read block => do
    let _ ← readBlock storage block
  | write block data => writeBlock storage block data
  | finish => Container.finish storage

/-- The blocks after an access that came to `r`: a write that succeeds replaces one of them. -/
def Access.after (contents : Nat → Block) : Access → (r : Except DiskError Unit) → Nat → Block
  | write block data, .ok _ => Function.update contents block data
  | _, _ => contents

/-- The states that accesses lead to, each with the blocks as they were written last. -/
inductive Run (storage : Storage) (start : Container × Host) (original : Nat → Block) :
    List Access → Container × Host → (Nat → Block) → Prop
  | start : Run storage start original [] start original
  | step {accesses : List Access} {state : Container × Host} {contents : Nat → Block}
    (h : Run storage start original accesses state contents) (access : Access) :
    Run storage start original (accesses ++ [access]) ((access.perform storage).stateAfter state)
      (access.after contents ((access.perform storage).outcome state))

/-- The positions that accesses may change: those of the blocks, and those of the checksum of the
data when it was brought up to date. -/
def Open (container : Container) (position : Nat → Nat → Nat) (accesses : List Access) (k : Nat) :
    Prop :=
  (∃ block i, block < container.blocks ∧ i < 512 ∧ k = position block i) ∨
    (.finish ∈ accesses ∧ container.format = .diskCopy42 ∧ 0x48 ≤ k ∧ k < 0x4C)

theorem Open.mono {accesses accesses' : List Access} {k : Nat}
    (h : container.Open position accesses k) (hsub : accesses ⊆ accesses') :
    container.Open position accesses' k :=
  h.imp_right fun ⟨hmem, hk⟩ => ⟨hsub hmem, hk⟩

/-- What a run of accesses preserves. -/
structure Reached (storage : Storage) (position : Nat → Nat → Nat) (start : Container × Host)
    (accesses : List Access) (state : Container × Host) (contents : Nat → Block) : Prop where
  layout_eq : state.1.layout = start.1.layout
  format_eq : state.1.format = start.1.format
  fits : state.1.Fits storage.size
  backed : storage.Backed state.2
  /-- The positions of a block hold what was written last. -/
  contents_eq {block : Nat} (h : block < start.1.blocks) :
    contents block = bytesAt position (state.2.contents storage.file) block
  /-- Nothing was changed in the file but blocks and the checksum of the data. -/
  kept : Host.Kept storage.file (start.1.Open position accesses) start.2 state.2

variable {accesses : List Access}

theorem Reached.blocks_eq (h : Reached storage position start accesses state contents) :
    state.1.blocks = start.1.blocks := congrArg Layout.blocks h.layout_eq

theorem Reached.position?_eq (h : Reached storage position start accesses state contents)
    (hp : start.1.layout.position? = some position) :
    state.1.layout.position? = some position := h.layout_eq.symm ▸ hp

theorem Reached.layout_fits (h : Reached storage position start accesses state contents)
    (hp : start.1.layout.position? = some position) : state.1.layout.Fits storage.size := by
  refine h.fits.layout fun hn => ?_
  have hp := h.position?_eq hp
  cases hl : state.1.layout with
  | sequential layout => rw [hl] at hn; cases hn
  | interleaved layout => rw [hl] at hn; cases hn
  | nibble layout => rw [hl] at hp; cases hp

/-- One more access that leaves the state as it is. -/
theorem Reached.idle (h : Reached storage position start accesses state contents)
    (access : Access) : Reached storage position start (accesses ++ [access]) state contents :=
  { h with kept := h.kept.mono fun _ hk => hk.mono (List.subset_append_left ..) }

/-- A block that was written holds the data, and the others hold what they did. -/
theorem bytesAt_written (hp : container.layout.position? = some position) {data : Block}
    {before after : Host} (hw : BlockWritten storage.file position block data before after)
    (other : Nat) :
    bytesAt position (after.contents storage.file) other =
      Function.update (bytesAt position (before.contents storage.file)) block data other := by
  by_cases he : other = block
  · subst he
    rw [Function.update_self]
    refine Bytes.ext_byte fun i hi => ?_
    rw [byte_bytesAt _ _ _ hi, hw.byteAt_eq hi]
  · rw [Function.update_of_ne he]
    refine bytesAt_congr fun i hi => hw.byte_eq ?_
    rintro ⟨j, hj, heq⟩
    exact he (position_injective hp hi hj heq).1

theorem Reached.noteModified (h : Reached storage position start accesses state contents) :
    Reached storage position start accesses (state.1.noteModified, state.2) contents where
  layout_eq := (layout_noteModified _).trans h.layout_eq
  format_eq := (format_noteModified _).trans h.format_eq
  fits := h.fits.noteModified
  backed := h.backed
  contents_eq := h.contents_eq
  kept := h.kept

theorem Reached.write (h : Reached storage position start accesses state contents)
    (hp : start.1.layout.position? = some position) (block : Nat) (data : Block) :
    Ends (writeBlock storage block data) state fun r s =>
      Reached storage position start (accesses ++ [.write block data]) s
        ((Access.write block data).after contents r) := by
  refine (writeBlock_ends (h.layout_fits hp) (h.position?_eq hp) h.backed block data).mono ?_
  rintro r ⟨container, after⟩ ⟨hcontainer, hwrite⟩
  -- A write that succeeds marks the checksum as stale, which is no part of the blocks.
  have hmarked : Reached storage position start accesses (container, state.2) contents := by
    obtain rfl := hcontainer
    split
    · exact h.noteModified
    · exact h
  unfold WriteOutcome at hwrite
  split at hwrite
  · next hb =>
    split at hwrite
    · obtain ⟨rfl, rfl⟩ := hwrite
      exact hmarked.idle _
    · obtain ⟨rfl, hwritten⟩ := hwrite
      refine ⟨hmarked.layout_eq, hmarked.format_eq, hmarked.fits, h.backed.kept hwritten.toKept,
        fun {other} hother => ?_, (h.idle _).kept.trans (hwritten.toKept.mono ?_)⟩
      · rw [bytesAt_written (h.position?_eq hp) hwritten, Access.after]
        by_cases he : other = block
        · subst he
          rw [Function.update_self, Function.update_self]
        · rw [Function.update_of_ne he, Function.update_of_ne he, h.contents_eq hother]
      · rintro k ⟨i, hi, rfl⟩
        exact .inl ⟨block, i, h.blocks_eq ▸ hb, hi, rfl⟩
  · obtain ⟨rfl, rfl⟩ := hwrite
    exact hmarked.idle _

theorem Reached.finish (h : Reached storage position start accesses state contents)
    (hp : start.1.layout.position? = some position) :
    Ends (finish storage) state fun _ s =>
      Reached storage position start (accesses ++ [.finish]) s contents := by
  refine (finish_ends h.fits h.backed).mono ?_
  rintro r ⟨container, host⟩ ⟨hlayout, hformat, hfits, hkept⟩
  refine ⟨hlayout.trans h.layout_eq, hformat.trans h.format_eq, hfits, h.backed.kept hkept,
    fun {block} hb => ?_, (h.idle _).kept.trans (hkept.mono fun k hk => ?_)⟩
  · rw [h.contents_eq hb]
    refine (bytesAt_congr fun i hi => hkept.byte_eq ?_).symm
    rintro ⟨hdiskCopy, -, hlt⟩
    have := h.fits.size_le_base hdiskCopy
    have := base_le_position (h.position?_eq hp) block i
    omega
  · exact .inr ⟨List.mem_append_right _ (List.mem_singleton_self _), h.format_eq ▸ hk.1, hk.2⟩

/-- What one access preserves. -/
theorem Reached.step (h : Reached storage position start accesses state contents)
    (hp : start.1.layout.position? = some position) (access : Access) :
    Ends (access.perform storage) state fun r s =>
      Reached storage position start (accesses ++ [access]) s (access.after contents r) := by
  cases access with
  | read block =>
    refine ends_bind.mpr
      ((readBlock_ends (h.layout_fits hp) (h.position?_eq hp) h.backed block).mono ?_)
    rintro r s ⟨rfl, -⟩
    cases r with
    | ok _ => exact h.idle _
    | error e => exact h.idle _
  | write block data => exact h.write hp block data
  | finish => exact h.finish hp

/-- What a run of accesses preserves. -/
theorem Run.reached (h : Run storage start original accesses state contents)
    (hp : start.1.layout.position? = some position)
    (hstart : Reached storage position start [] start original) :
    Reached storage position start accesses state contents := by
  induction h with
  | start => exact hstart
  | step _ access ih => exact ends_iff.mp (ih.step hp access)

/-! ## Accepted files -/

/-- What the user of a container that was opened as `start` can rely on after some accesses. -/
structure Safe (storage : Storage) (position : Nat → Nat → Nat) (start : Container × Host)
    (accesses : List Access) (state : Container × Host) (contents : Nat → Block) : Prop where
  /-- The positions of a block hold what was written last. -/
  contents_eq {block : Nat} (h : block < start.1.blocks) :
    contents block = bytesAt position (state.2.contents storage.file) block
  /-- A block is read as it was written last, and nothing else is changed by that. -/
  readBlock (block : Nat) :
    Ends (readBlock storage block) state fun r s => s = state ∧
      r = if block < start.1.blocks then .ok (contents block)
        else .error (.blockOutOfRange block start.1.blocks)
  writeBlock (block : Nat) (data : Block) :
    Ends (writeBlock storage block data) state fun r s =>
      WriteOutcome storage position start.1.blocks block data state.2 r s.2
  /-- Nothing was changed in the file but blocks and the checksum of the data. -/
  kept : Host.Kept storage.file (start.1.Open position accesses) start.2 state.2

theorem Reached.safe (h : Reached storage position start accesses state contents)
    (hp : start.1.layout.position? = some position) :
    Safe storage position start accesses state contents where
  contents_eq := h.contents_eq
  readBlock block := by
    refine (readBlock_ends (h.layout_fits hp) (h.position?_eq hp) h.backed block).mono ?_
    rintro r s ⟨hs, hr⟩
    refine ⟨hs, hr.trans ?_⟩
    rw [h.blocks_eq]
    split
    · next hb => rw [h.contents_eq hb]
    · rfl
  writeBlock block data :=
    (writeBlock_ends (h.layout_fits hp) (h.position?_eq hp) h.backed block data).mono
      fun _ _ hr => h.blocks_eq ▸ hr.2
  kept := h.kept

/-- Accepted files, unless their blocks are encoded on tracks, are safe to read and to write. -/
theorem openFile_safe {file path : String} {backing : Backing} {readOnly : Bool} {after : Host}
    {options : DeviceOptions} (hopen : Storage.openFile host file backing readOnly = .ok storage)
    (h : (openFile storage path options).run host = .ok container after)
    (hn : container.layout.format ≠ .nibble) :
    ∃ position, container.layout.position? = some position ∧
      (∀ block i, block < container.blocks → i < 512 →
        container.headerSize ≤ position block i ∧
          position block i < (host.contents storage.file).size) ∧
      (∀ a b i j, i < 512 → j < 512 → position a i = position b j → a = b ∧ i = j) ∧
      ∀ accesses state contents,
        Run storage (container, after) (bytesAt position (host.contents storage.file)) accesses
          state contents → Safe storage position (container, after) accesses state contents := by
  have hbacked := Storage.openFile_backed hopen
  obtain ⟨hkept, hfits⟩ := (openFile_ends storage host path options).of_ok h
  have hfits := (hfits container rfl).toFits
  obtain ⟨position, hp⟩ := exists_position hn
  refine ⟨position, hp, fun block i hb hi => ⟨?_, ?_⟩, fun a b i j => position_injective hp,
    fun accesses state contents hrun => (hrun.reached hp ?_).safe hp⟩
  · exact Nat.le_trans hfits.header_le (base_le_position hp block i)
  · exact Nat.lt_of_lt_of_le ((hfits.layout hn).position_lt hp hb hi) hbacked.size_le
  · refine ⟨rfl, rfl, hfits, hbacked.kept hkept, fun {block} _ => ?_, .refl⟩
    exact (bytesAt_congr fun i _ => hkept.byte_eq id).symm

theorem openTwoImg_of_layout {header : TwoImg} {layout : Layout} {policy : Gcr.SyncPolicy}
    (hread : readHead .twoImg 64 storage host = .ok header.toBytes)
    (hsize : 64 ≤ header.headerSize.toNat) (hstart : header.headerSize.toNat ≤ header.dataOffset.toNat)
    (hend : header.dataOffset.toNat + twoImgDataLength header ≤ storage.size)
    (hlayout : twoImgLayout header policy = .ok layout) :
    openTwoImg storage host policy = .ok ⟨.twoImg header, layout⟩ := by
  unfold openTwoImg
  rw [hread]
  simp only [bind, Except.bind, TwoImg.parse_toBytes header hsize, hlayout]
  rw [if_neg (by omega)]
  rfl

/-- A 2IMG file with one track in DOS order, a gap in front of it and more bytes behind it. -/
theorem openFile_safe_gap :
    let header : TwoImg :=
      { creator := TwoImg.ownCreator, headerSize := 64, version := 1, format := .dos, flags := 0
        blocks := 0, dataOffset := 100, dataLength := 4096, commentOffset := 0, commentLength := 0
        creatorDataOffset := 0, creatorDataLength := 0 }
    let host : Host := ⟨[⟨"disk.2mg", header.toBytes.data ++ zeros 4236, .readWrite⟩], #[]⟩
    let start : Container × Host := (⟨.twoImg header, .interleaved ⟨100, 8⟩⟩, host)
    ∃ storage, Storage.openFile host "disk.2mg" .descriptor false = .ok storage ∧
      (openFile storage "disk.2mg" { format := some .twoImg }).run host = .ok start.1 start.2 ∧
      ∃ position, (∀ i, i < 512 → 64 ≤ position 7 i ∧ position 7 i < 4300) ∧
        ∃ state contents, Safe storage position start [.write 7 (Bytes.zero 512)] state contents := by
  intro header host start
  have hlength : (host.contents "disk.2mg").size = 4300 := by
    change (header.toBytes.data ++ zeros 4236).size = 4300
    rw [ByteArray.size_append, header.toBytes.size_data, size_zeros]
  have hopen : Storage.openFile host "disk.2mg" .descriptor false =
      .ok (.ofSize "disk.2mg" (host.contents "disk.2mg").size .descriptor false) := rfl
  rw [hlength] at hopen
  have hhead : Bytes.ofSlice 64 (host.contents "disk.2mg") 0 = header.toBytes := by
    refine Bytes.ext_byte fun i hi => ?_
    rw [Bytes.byte_ofSlice, if_pos hi, Nat.zero_add]
    change byteAt (header.toBytes.data ++ zeros 4236) i = _
    rw [byteAt_append, if_pos (by rw [header.toBytes.size_data]; exact hi)]
    rfl
  have hbacked := Storage.openFile_backed hopen
  have hread : readHead .twoImg 64 (.ofSize "disk.2mg" 4300 .descriptor false) host =
      .ok header.toBytes :=
    (Image.readHead_eq hbacked (by decide) .twoImg).trans (congrArg Except.ok hhead)
  have hcontainer (policy : Gcr.SyncPolicy) :
      openTwoImg (.ofSize "disk.2mg" 4300 .descriptor false) host policy = .ok start.1 :=
    openTwoImg_of_layout hread (by decide) (by decide) (by decide)
      (by simp [header, twoImgLayout, twoImgDataLength])
  have hrun : (openFile (.ofSize "disk.2mg" 4300 .descriptor false) "disk.2mg"
      { format := some .twoImg }).run host = .ok start.1 start.2 := run_ask_of_ok (hcontainer _)
  obtain ⟨position, -, hin, -, hsafe⟩ := openFile_safe hopen hrun nofun
  exact ⟨_, hopen, hrun, position, fun i hi => hlength ▸ hin 7 i (by decide) hi, _, _,
    hsafe _ _ _ (.step .start (.write 7 (Bytes.zero 512)))⟩

end Container

end Diskette
