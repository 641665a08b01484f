import Diskette.Proofs.Container
import Diskette.Proofs.Pool.Touched

/-!
# Plain images

In a plain image the blocks are one after the other in the file, as in a file of nothing but blocks
or behind the header of a DiskCopy, Davex or 2IMG image. A block that is written, through the device
or through a mapping of the file, marks the image as changed and changes nothing around the blocks;
a flush of a changed image computes the checksum anew, if there is one.

* `Sited`: a device with a plain image. `Plain`: one that was not just created.
* `Wrote`: what a write of a block does.
* `Twin`: what is around the blocks is the same for two devices.
* `Sited.reached`, `Sited.holds_wrote`: what it shows.
* `Sited.read_ends`, `Sited.write_ends`, `Plain.flush_ends`: accesses to such a device.
* `plainDisk`: such a device is an array of blocks.
* `watched`: what is known of it behind a pool.
-/

namespace Diskette

open Diskette.Action Header

/-- The envelope with its checksum taken for up to date. -/
def Envelope.settled : Envelope → Envelope
  | .diskCopy header _ => .diskCopy header false
  | envelope => envelope

theorem Envelope.eq_of_settled {envelope envelope' : Envelope}
    (h : envelope'.settled = envelope.settled)
    (hstale : ∀ {header header' stale stale'}, envelope = .diskCopy header stale →
      envelope' = .diskCopy header' stale' → stale' = stale) : envelope' = envelope := by
  cases envelope <;> cases envelope' <;> cases h <;> first | rfl | rw [hstale rfl rfl]

/-- The envelope and the file after the checksum of the data was computed anew. -/
def Envelope.refresh : Envelope → ByteArray → Envelope × ByteArray
  | .diskCopy header _, data =>
    let sum := DiskCopy.checksum (slice data 84 header.dataSize)
    (.diskCopy { header with dataChecksum := sum } false,
      overwrite data 0x48 (beBytes 4 sum.toNat).toByteArray)
  | envelope, data => (envelope, data)

namespace Device

open Layout (BlockWritten ends_of_keeping)

variable {layout : Layout.Sequential} {state before after : Device × Host} {block : Nat}
  {bytes : Block}

/-- The bytes of the file of a device. -/
def contents (state : Device × Host) : ByteArray := state.2.contents state.1.storage.file

/-- The blocks of the device are one after the other in its file. -/
structure Sited (layout : Layout.Sequential) (state : Device × Host) : Prop where
  layout_eq : state.1.container.layout = .sequential layout
  fits : state.1.container.Fits state.1.storage.size
  backed : state.1.storage.Backed state.2
  writable (h : state.1.readOnly = false) : state.1.storage.readOnly = false

/-- The blocks of the device are one after the other in its file, and its checksum is stale exactly
if it was modified. -/
structure Plain (layout : Layout.Sequential) (state : Device × Host) : Prop
    extends Sited layout state where
  stale_eq {header : DiskCopy} {stale : Bool}
    (h : state.1.container.envelope = .diskCopy header stale) : stale = state.1.modified
  readOnly_eq (h : state.1.modified = true) : state.1.readOnly = false

theorem Sited.blocks_eq (h : Sited layout state) : state.1.blocks = layout.blocks := by
  unfold blocks Container.blocks
  rw [h.layout_eq]
  rfl

theorem Sited.position?_eq (h : Sited layout state) :
    state.1.container.layout.position? = some layout.position := by
  rw [h.layout_eq]
  rfl

theorem Sited.layout_fits (h : Sited layout state) :
    state.1.container.layout.Fits state.1.storage.size :=
  h.fits.layout (by rw [h.layout_eq]; exact nofun)

theorem Sited.le_size (h : Sited layout state) (hb : block < layout.blocks) :
    layout.offset block + 512 ≤ state.1.storage.size := by
  have hfits := h.layout_fits
  rw [h.layout_eq] at hfits
  have hle : layout.base + layout.blocks * 512 ≤ state.1.storage.size := hfits
  unfold Layout.Sequential.offset
  omega

/-! ## A block is written -/

/-- What a write of a block does to a device and its file. -/
structure Wrote (layout : Layout.Sequential) (block : Nat) (bytes : Block)
    (before after : Device × Host) : Prop where
  device_eq : after.1 = before.1.noteModified
  written : BlockWritten before.1.storage.file layout.position block bytes before.2 after.2

/-- No position is one of a block. -/
def Around (layout : Layout.Sequential) (k : Nat) : Prop :=
  ∀ block i, block < layout.blocks → i < 512 → layout.position block i ≠ k

/-- The header and everything else but the blocks is the same for two devices. -/
structure Twin (layout : Layout.Sequential) (state other : Device × Host) : Prop where
  readOnly_eq : other.1.readOnly = state.1.readOnly
  envelope_eq : other.1.container.envelope.settled = state.1.container.envelope.settled
  size_eq : (contents other).size = (contents state).size
  byte_eq {k : Nat} (h : Around layout k) : byteAt (contents other) k = byteAt (contents state) k

theorem Twin.trans {other third : Device × Host} (h : Twin layout state other)
    (h' : Twin layout other third) : Twin layout state third :=
  ⟨h'.readOnly_eq.trans h.readOnly_eq, h'.envelope_eq.trans h.envelope_eq,
    h'.size_eq.trans h.size_eq, fun hk => (h'.byte_eq hk).trans (h.byte_eq hk)⟩

theorem Twin.symm {other : Device × Host} (h : Twin layout state other) : Twin layout other state :=
  ⟨h.readOnly_eq.symm, h.envelope_eq.symm, h.size_eq.symm, fun hk => (h.byte_eq hk).symm⟩

/-- Files with the same blocks and the same around them are the same. -/
theorem Twin.contents_eq {other : Device × Host} (h : Twin layout state other)
    (hb : bytesAt layout.position (contents other) = bytesAt layout.position (contents state)) :
    contents other = contents state := by
  refine ext_byteAt h.size_eq fun k _ => ?_
  by_cases hk : Around layout k
  · exact h.byte_eq hk
  · simp only [Around, not_forall, not_not] at hk
    obtain ⟨block, i, -, hi, rfl⟩ := hk
    rw [← byte_bytesAt _ _ _ hi, hb, byte_bytesAt _ _ _ hi]

/-- A device that is marked as changed. -/
theorem Sited.noteModified (h : Sited layout state) :
    Sited layout (state.1.noteModified, state.2) :=
  ⟨(noteModified_layout _).trans h.layout_eq, h.fits.noteModified, h.backed, h.writable⟩

theorem Plain.noteModified (h : Plain layout state) (hro : state.1.readOnly = false) :
    Plain layout (state.1.noteModified, state.2) := by
  refine ⟨h.toSited.noteModified, ?_, fun _ => hro⟩
  intro header stale he
  obtain ⟨⟨storage, ⟨envelope, inner⟩, readOnly, modified⟩, host⟩ := state
  cases envelope <;> cases he
  rfl

theorem Sited.wrote (h : Sited layout before) (hw : Wrote layout block bytes before after) :
    Sited layout after := by
  obtain ⟨device, host⟩ := after
  obtain rfl : device = before.1.noteModified := hw.device_eq
  exact { h.noteModified with backed := h.backed.kept hw.written.toKept }

theorem Plain.wrote (h : Plain layout before) (hw : Wrote layout block bytes before after)
    (hro : before.1.readOnly = false) : Plain layout after := by
  obtain ⟨device, host⟩ := after
  obtain rfl : device = before.1.noteModified := hw.device_eq
  exact { h.noteModified hro with backed := h.backed.kept hw.written.toKept }

theorem settled_noteModified (container : Container) :
    container.noteModified.envelope.settled = container.envelope.settled := by
  obtain ⟨envelope, layout⟩ := container
  cases envelope <;> rfl

/-- A write changes nothing around the blocks. -/
theorem Wrote.twin (hw : Wrote layout block bytes before after) (hb : block < layout.blocks) :
    Twin layout before after := by
  obtain ⟨device, host⟩ := after
  obtain rfl : device = before.1.noteModified := hw.device_eq
  refine ⟨rfl, settled_noteModified _, hw.written.size_eq, fun hk => hw.written.byte_eq ?_⟩
  rintro ⟨i, hi, rfl⟩
  exact hk block i hb hi rfl

theorem Sited.bytesAt_wrote (h : Sited layout before) (hw : Wrote layout block bytes before after) :
    bytesAt layout.position (contents after) =
      Function.update (bytesAt layout.position (contents before)) block bytes := by
  obtain ⟨device, host⟩ := after
  obtain rfl : device = before.1.noteModified := hw.device_eq
  exact funext (Container.bytesAt_written h.position?_eq hw.written)

/-! ## What such a device shows -/

variable {c : Nat → Block}

/-- A device that shows an array is such a device, if its header is no part of the blocks. -/
theorem Holds.sited (h : Holds state c) (hl : state.1.container.layout = .sequential layout)
    (hle : state.1.container.headerSize ≤ state.1.container.layout.base) : Sited layout state := by
  refine ⟨hl, ⟨hle, fun _ => ?_, h.checksum⟩, h.backed, h.writable⟩
  have hholds := h.layout
  rw [hl] at hholds
  rw [hl]
  exact hholds.fits

/-- The blocks that it shows are those in its file. -/
theorem Sited.bytesAt_eq (h : Sited layout state) (hc : Holds state c) (hb : block < layout.blocks) :
    bytesAt layout.position (contents state) block = c block := by
  have hholds := hc.layout
  rw [h.layout_eq] at hholds
  exact Bytes.ext_byte fun i hi => (byte_bytesAt _ _ _ hi).trans (hholds.placed block hb i hi)

theorem Evolves.headerSize_eq (he : Evolves before after) :
    after.1.container.headerSize = before.1.container.headerSize := by
  have henvelope := he.envelope_eq
  unfold Container.headerSize
  cases hb : before.1.container.envelope <;> cases ha : after.1.container.envelope <;>
    simp_all [Envelope.withoutChecksum]

/-- It stays such a device. -/
theorem Sited.reached (h : Sited layout before) (hr : Reached before after c) :
    Sited layout after := by
  obtain ⟨he, hh⟩ := hr
  have hgeometry := he.geometry_eq
  rw [h.layout_eq] at hgeometry
  refine hh.sited ?_ ?_
  · cases hl : after.1.container.layout with
    | sequential layout' =>
      rw [hl] at hgeometry
      exact hgeometry
    | interleaved layout' =>
      rw [hl] at hgeometry
      cases hgeometry
    | nibble layout' =>
      rw [hl] at hgeometry
      cases hgeometry
  · rw [he.headerSize_eq, he.base_eq]
    exact h.fits.header_le

theorem Sited.evolves (h : Sited layout before) (hw : Wrote layout block bytes before after) :
    Evolves before after := by
  obtain ⟨device, host⟩ := after
  obtain rfl : device = before.1.noteModified := hw.device_eq
  have hlayout : before.1.noteModified.container.layout = before.1.container.layout :=
    noteModified_layout _
  refine ⟨rfl, rfl, congrArg _ hlayout, noteModified_withoutChecksum _, hw.written.mono ?_⟩
  rintro k ⟨i, -, rfl⟩
  refine .inl ?_
  rw [h.layout_eq]
  exact layout.base_le_position block i

/-- A block that is written is one of the array that is shown then. -/
theorem Sited.holds_wrote (h : Sited layout before) (hc : Holds before c)
    (hw : Wrote layout block bytes before after) : Holds after (Function.update c block bytes) := by
  have hsited := h.wrote hw
  obtain ⟨device, host⟩ := after
  obtain rfl : device = before.1.noteModified := hw.device_eq
  have hholds := hc.layout
  rw [h.layout_eq] at hholds
  refine ⟨hsited.backed, ?_, hsited.fits.checksum, hsited.writable⟩
  rw [hsited.layout_eq]
  exact ⟨hholds.fits, hholds.placed.replace hw.written Layout.Sequential.position_inj⟩

/-! ## Accesses -/

theorem Sited.read_ends (h : Sited layout state) (block : Nat) :
    Ends (read block) state fun r s => s = state ∧
      r = if block < layout.blocks then .ok (bytesAt layout.position (contents state) block)
        else .error (.blockOutOfRange block layout.blocks) := by
  have hblocks := h.blocks_eq
  obtain ⟨⟨storage, container, readOnly, modified⟩, host⟩ := state
  have hblocks : container.blocks = layout.blocks := hblocks
  by_cases hb : block < layout.blocks
  · refine ends_bind.mpr (ends_ask.mpr ?_)
    simp only [checkBlock_eq_ok_iff.mpr (show block < container.blocks from hblocks ▸ hb), blocks]
    refine ends_onContainer.mpr
      ((Container.readBlock_ends h.layout_fits h.position?_eq h.backed block).mono ?_)
    rintro r s ⟨rfl, hr⟩
    exact ⟨rfl, hr.trans (by rw [hblocks]; rfl)⟩
  · have hle : container.blocks ≤ block := hblocks ▸ Nat.not_lt.mp hb
    refine (ends_of_run_eq_error (run_read_of_le hle)).mpr ⟨rfl, ?_⟩
    rw [if_neg hb, ← hblocks]
    rfl

theorem Sited.write_ends (h : Sited layout state) (block : Nat) (bytes : Block) :
    Ends (write block bytes) state fun r s =>
      if block < layout.blocks ∧ state.1.readOnly = false then
        r = .ok () ∧ Wrote layout block bytes state s
      else r ≠ .ok () ∧ s = state := by
  have hblocks := h.blocks_eq
  have hwritable := h.writable
  obtain ⟨⟨storage, container, readOnly, modified⟩, host⟩ := state
  cases hcheck : (⟨storage, container, readOnly, modified⟩ : Device).checkWrite block with
  | error e =>
    have hrefused : ¬ (block < layout.blocks ∧ readOnly = false) := fun hw => by
      rw [checkWrite_eq_ok_iff.mpr ⟨hblocks.symm ▸ hw.1, hw.2⟩] at hcheck
      cases hcheck
    simp only [if_neg hrefused]
    exact (ends_of_run_eq_error (run_write_of_error hcheck bytes)).mpr ⟨nofun, rfl⟩
  | ok _ =>
    obtain ⟨hb, hro⟩ := checkWrite_eq_ok_iff.mp hcheck
    simp only [if_pos (show block < layout.blocks ∧ readOnly = false from ⟨hblocks ▸ hb, hro⟩)]
    have hstorage : storage.readOnly = false := hwritable hro
    refine ends_bind.mpr (ends_ask.mpr ?_)
    simp only [hcheck]
    refine ends_bind.mpr (ends_onContainer.mpr
      ((Container.writeBlock_ends h.layout_fits h.position?_eq h.backed block bytes).mono ?_))
    rintro r ⟨container', host'⟩ ⟨hcontainer, hwrite⟩
    have hb' : block < container.blocks := hb
    rw [Layout.WriteOutcome, if_pos hb', hstorage] at hwrite
    obtain ⟨rfl, hwritten⟩ := hwrite
    obtain rfl : container' = container.noteModified := hcontainer
    exact ⟨rfl, rfl, hwritten⟩

theorem not_isOutage_of_checkWrite {device : Device} {e : DiskError}
    (h : device.checkWrite block = .error e) : ¬ e.IsOutage := by
  unfold checkWrite checkBlock at h
  rintro ⟨message, rfl⟩
  by_cases hb : block < device.blocks
  · rw [if_pos hb] at h
    cases hro : device.readOnly <;> rw [hro] at h <;> cases h
  · rw [if_neg hb] at h
    cases h

/-- On any medium a block is written as it is where the host never fails, or not at all; but where
the host breaks off the write, a part of it may be. -/
theorem Sited.write_cases [Medium] (h : Sited layout state) (block : Nat) (bytes : Block) :
    Ends (write block bytes) state fun r s =>
      match r with
      | .ok _ => state.1.readOnly = false ∧ Wrote layout block bytes state s
      | .error e => ¬ e.IsOutage ∧ s = state ∨ e.IsOutage ∧ s.1 = state.1 ∧
          state.1.storage.Broken state.2 (layout.offset block) bytes.data s.2 := by
  -- What a failure leaves is the same on every medium; a success is that of the reliable one.
  have herror : Ends (write block bytes) state fun r s => ∀ e, r = .error e →
      ¬ e.IsOutage ∧ s = state ∨ e.IsOutage ∧ s.1 = state.1 ∧
        state.1.storage.Broken state.2 (layout.offset block) bytes.data s.2 := by
    obtain ⟨⟨storage, ⟨envelope, inner⟩, readOnly, modified⟩, host⟩ := state
    obtain rfl : inner = .sequential layout := h.layout_eq
    refine write_onError (Q := fun e s => ¬ e.IsOutage ∧ s = _ ∨ e.IsOutage ∧ _ = _ ∧ _)
      (fun e he => .inl ⟨not_isOutage_of_checkWrite he, rfl⟩) ?_
    refine (ends_of_keeping rfl).mpr (ends_bind.mpr (ends_ofExcept.mpr ?_))
    cases hcheck : checkBlock block layout.blocks with
    | error e =>
      refine fun e' he => .inl ⟨?_, rfl⟩
      cases he
      unfold checkBlock at hcheck
      split at hcheck <;> cases hcheck
      rintro ⟨_, ⟨⟩⟩
    | ok _ =>
      dsimp only
      unfold Ends
      cases hrun : (storage.write (layout.offset block) bytes.data).run host with
      | ok _ after => exact nofun
      | error e after =>
        intro e' he
        cases he
        rcases Storage.of_run_write_eq_error hrun with ⟨hno, rfl⟩ | ⟨houtage, hbroken⟩
        · exact .inl ⟨hno, rfl⟩
        · exact .inr ⟨houtage, rfl, hbroken⟩
  unfold Ends
  cases hr : (write block bytes).run state with
  | ok _ s =>
    have hs := (h.write_ends block bytes).of_ok (alike_write block bytes _ hr)
    split at hs
    · next hw => exact ⟨hw.2, hs.2⟩
    · exact absurd rfl hs.1
  | error e s => exact herror.of_error hr e rfl

/-- A flush writes the checksum that is out of date. -/
theorem run_flush_of_stale (layout : Layout.Sequential) (readOnly : Bool) {storage : Storage}
    {header : Header.DiskCopy} {host : Host} (hs : storage.Backed host)
    (hw : storage.readOnly = false) (hle : 84 + header.dataSize ≤ storage.size) :
    flush.run (⟨storage, ⟨.diskCopy header true, .sequential layout⟩, readOnly, true⟩, host) =
      .ok () (⟨storage, ⟨.diskCopy (refreshed storage header host) false, .sequential layout⟩,
        readOnly, false⟩, host.writeAt storage.file 0x48
          (beBytes 4 (refreshed storage header host).dataChecksum.toNat).toByteArray) := by
  have hrefresh := run_refreshChecksum hs hle
  rw [hw] at hrefresh
  rw [run_flush_eq_finish]
  unfold EStateM.run Container.finish at *
  simp only [hrefresh]
  rfl

/-- A flush computes the checksum anew if the image was modified. -/
theorem Plain.flush_ends (h : Plain layout state) :
    Ends flush state fun r s => r = .ok () ∧ Plain layout s ∧ s.1.modified = false ∧
      s.1.storage = state.1.storage ∧ s.1.readOnly = state.1.readOnly ∧
      bytesAt layout.position (contents s) = bytesAt layout.position (contents state) ∧
      (s.1.container.envelope, contents s) =
        if state.1.modified then state.1.container.envelope.refresh (contents state)
        else (state.1.container.envelope, contents state) := by
  obtain ⟨⟨storage, ⟨envelope, inner⟩, readOnly, modified⟩, host⟩ := state
  obtain rfl : inner = .sequential layout := h.layout_eq
  -- Only a DiskCopy header has anything that can be out of date.
  have hnothing (hstale : ∀ header stale, envelope ≠ .diskCopy header stale) :
      Plain layout (⟨storage, ⟨envelope, .sequential layout⟩, readOnly, false⟩, host) :=
    ⟨⟨rfl, h.fits, h.backed, h.writable⟩, fun he => absurd he (hstale _ _), nofun⟩
  cases modified with
  | false => exact ⟨rfl, h, rfl, rfl, rfl, rfl, rfl⟩
  | true =>
    have hflush := run_flush_eq_finish storage ⟨envelope, .sequential layout⟩ readOnly host
    cases envelope with
    | bare =>
      rw [ends_of_run_eq_ok hflush]
      exact ⟨rfl, hnothing nofun, rfl, rfl, rfl, rfl, rfl⟩
    | twoImg header =>
      rw [ends_of_run_eq_ok hflush]
      exact ⟨rfl, hnothing nofun, rfl, rfl, rfl, rfl, rfl⟩
    | davex =>
      rw [ends_of_run_eq_ok hflush]
      exact ⟨rfl, hnothing nofun, rfl, rfl, rfl, rfl, rfl⟩
    | diskCopy header stale =>
      obtain rfl : stale = true := h.stale_eq rfl
      obtain ⟨hbase, hle⟩ := h.fits.checksum header true rfl
      have hbacked : storage.Backed host := h.backed
      -- The checksum lies in the header, in front of the first block.
      have hkept := kept_refreshChecksum hbacked hle
      have hrun := run_flush_of_stale layout readOnly hbacked (h.writable (h.readOnly_eq rfl)) hle
      refine (ends_of_run_eq_ok hrun).mpr ⟨rfl, ?_, rfl, rfl, rfl, funext fun block => ?_, ?_⟩
      · refine ⟨⟨rfl, ⟨h.fits.header_le, h.fits.layout, fun header' stale' he => ?_⟩,
          hbacked.kept hkept, h.writable⟩, fun he => ?_, nofun⟩
        · cases he
          exact ⟨hbase, hle⟩
        · cases he
          rfl
      · refine bytesAt_congr fun i _ => hkept.byte_eq ?_
        have hposition := layout.base_le_position block i
        have hbase : 84 ≤ layout.base := hbase
        omega
      · exact Prod.ext rfl (hbacked.contents_writeAt _)

/-- Whether the checksum is up to date is known from the device. -/
theorem Plain.envelope_eq {other : Device × Host} (h : Plain layout state) (h' : Plain layout other)
    (ht : Twin layout state other) (hm : other.1.modified = state.1.modified) :
    other.1.container.envelope = state.1.container.envelope := by
  refine Envelope.eq_of_settled ht.envelope_eq fun he he' => ?_
  rw [h.stale_eq he, h'.stale_eq he', hm]

/-- A flush makes of copies copies again. -/
theorem Plain.flush_twin {other : Device × Host} (h : Plain layout state) (h' : Plain layout other)
    (ht : Twin layout state other) (hm : other.1.modified = state.1.modified)
    (hc : contents other = contents state) :
    Twin layout (flush.stateAfter state) (flush.stateAfter other) ∧
      contents (flush.stateAfter other) = contents (flush.stateAfter state) := by
  obtain ⟨-, -, -, -, hro, -, hflushed⟩ := ends_iff.mp h.flush_ends
  obtain ⟨-, -, -, -, hro', -, hflushed'⟩ := ends_iff.mp h'.flush_ends
  rw [h.envelope_eq h' ht hm, hm, hc, ← hflushed] at hflushed'
  obtain ⟨henvelope, hcontents⟩ := Prod.mk.inj hflushed'
  refine ⟨⟨hro'.trans (ht.readOnly_eq.trans hro.symm), congrArg _ henvelope, congrArg _ hcontents,
    fun _ => ?_⟩, hcontents⟩
  rw [hcontents]

/-- What a plain image shows. -/
structure Displays (layout : Layout.Sequential) (storage : Storage) (readOnly : Bool)
    (state : Device × Host) (c : Nat → Block) : Prop extends Plain layout state where
  storage_eq : state.1.storage = storage
  protected_eq : state.1.readOnly = readOnly
  shown_eq : bytesAt layout.position (contents state) = c

/-- A plain image is an array of blocks. -/
theorem plainDisk (layout : Layout.Sequential) (storage : Storage) (readOnly : Bool) :
    ArrayDisk layout.blocks readOnly (Displays layout storage readOnly) where
  read_ends := by
    intro state c h block
    refine (h.read_ends block).mono ?_
    rintro r s ⟨rfl, hr⟩
    refine ⟨h, fun data hok => ?_⟩
    rw [hok] at hr
    split at hr
    · rw [Except.ok.inj hr, h.shown_eq]
    · cases hr
  write_ends := by
    intro state c h block data
    refine (h.write_ends block data).mono ?_
    intro r s hs
    split at hs
    · next hwritable =>
      obtain ⟨rfl, hw⟩ := hs
      refine ⟨h.wrote hw hwritable.2, ?_, ?_, ?_⟩
      · rw [hw.device_eq]
        exact h.storage_eq
      · rw [hw.device_eq]
        exact h.protected_eq
      · rw [h.bytesAt_wrote hw, h.shown_eq]
    -- A write that fails fails on its checks, in front of the first byte.
    · obtain ⟨hr, rfl⟩ := hs
      cases r with
      | ok _ => exact absurd rfl hr
      | error e => exact h
  blocks_eq h := h.blocks_eq
  readOnly_eq h := h.protected_eq
  flush_ends := by
    intro state c h
    refine h.flush_ends.mono ?_
    rintro r s ⟨-, hs, -, hstorage, hro, hbytes, -⟩
    exact ⟨hs, hstorage.trans h.storage_eq, hro.trans h.protected_eq, hbytes.trans h.shown_eq⟩
  read_ok := by
    intro state c block h hb
    obtain ⟨-, hr⟩ := ends_iff.mp (h.read_ends block)
    rw [if_pos hb, h.shown_eq] at hr
    exact ⟨_, run_eq_ok_of_outcome hr⟩
  write_ok := by
    intro state c block data h hb hw
    have hends := ends_iff.mp (h.write_ends block data)
    rw [if_pos ⟨hb, h.protected_eq.trans hw⟩] at hends
    exact ⟨_, run_eq_ok_of_outcome hends.1⟩

/-- It is known of such a device whether it was written, and what is around the blocks stays. -/
theorem watched (layout : Layout.Sequential) (reference : Device × Host) :
    Pool.Watched (fun state => Plain layout state ∧ Twin layout reference state)
      fun state : Device × Host => state.1.modified = true where
  read_ends h block := by
    refine (h.1.read_ends block).mono ?_
    rintro r s ⟨rfl, -⟩
    exact ⟨h, Iff.rfl⟩
  write_ends h block bytes := by
    refine (h.1.write_ends block bytes).mono ?_
    intro r s hs
    split at hs
    · next hwritable =>
      obtain ⟨rfl, hw⟩ := hs
      refine ⟨⟨h.1.wrote hw hwritable.2, h.2.trans (hw.twin hwritable.1)⟩,
        iff_of_true ?_ (.inl rfl)⟩
      rw [hw.device_eq]
      rfl
    · obtain ⟨hr, rfl⟩ := hs
      exact ⟨h, (or_iff_right hr).symm⟩

end Device

end Diskette
