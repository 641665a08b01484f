import Diskette.Layout
import Diskette.Proofs.Layout.Formatted
import Diskette.Proofs.Layout.Placed

/-!
# Layouts as arrays of blocks

Every layout shows an array of blocks, a nibble layout if its tracks are formatted. Reading and
replacing blocks does to the array what it should, and to the host nothing below the data.

* `Holds.run_readBlock`, `Holds.run_writeBlock`: blocks.
* `Holds.congr`: the array depends on nothing below the data.
* `geometry`: what a layout is besides what it found out about its tracks.
-/

namespace Diskette.Layout

variable {layout layout' : Layout} {storage : Storage} {host : Host} {c : Nat → Block} {size : Nat}
  {data data' : ByteArray}

/-- Where the data starts. -/
def base : Layout → Nat
  | sequential layout => layout.base
  | interleaved layout => layout.base
  | nibble layout => layout.base

/-- The layout without the index of its tracks. -/
def geometry : Layout → Layout
  | nibble layout => nibble { layout with index := none }
  | layout => layout

/-- The blocks of a storage are those of `c`. -/
def Holds : Layout → (size : Nat) → ByteArray → (Nat → Block) → Prop
  | sequential layout => layout.Holds
  | interleaved layout => layout.Holds
  | nibble layout => layout.Holds

theorem blocks_geometry : layout.geometry.blocks = layout.blocks := by
  cases layout <;> rfl

theorem base_geometry : layout.geometry.base = layout.base := by
  cases layout <;> rfl

/-- The array depends on nothing below the data. -/
theorem Holds.congr (h : layout.Holds size data c) (hsize : data'.size = data.size)
    (hbyte : ∀ k, layout.base ≤ k → byteAt data' k = byteAt data k) : layout.Holds size data' c := by
  cases layout with
  | sequential layout =>
    refine ⟨h.fits, fun block hb i hi => ?_⟩
    rw [← h.placed block hb i hi]
    exact hbyte _ (layout.base_le_position block i)
  | interleaved layout =>
    refine ⟨h.whole, h.fits, fun block hb i hi => ?_⟩
    rw [← h.placed block hb i hi]
    exact hbyte _ (layout.base_le_position block i)
  | nibble layout =>
    obtain ⟨volume, sectors, hf, hc⟩ := h
    refine ⟨volume, sectors, ⟨hf.fits, hf.tracks_le, fun {t} ht => ?_, hf.index_eq⟩, hc⟩
    have hslice : slice data' (layout.trackOffset t) Gcr.trackSize =
        slice data (layout.trackOffset t) Gcr.trackSize :=
      slice_congr hsize fun i hlo _ => hbyte i (Nat.le_trans (Nat.le_add_right _ _) hlo)
    rw [hslice]
    exact hf.track ht

theorem ends_of_keeping {α : Type} {act : Action (Layout × Host) α} {inner : Action Host α}
    {Q : Except DiskError α → Layout × Host → Prop}
    (h : act (layout, host) = keeping layout inner host) :
    Action.Ends act (layout, host) Q ↔ Action.Ends inner host fun r after => Q r (layout, after) := by
  unfold Action.Ends EStateM.run
  rw [h, keeping]
  cases inner host <;> rfl

theorem ends_of_onNibble {α : Type} {act : Action (Layout × Host) α} {tracks : Nibble}
    {inner : Action (Nibble × Host) α} {Q : Except DiskError α → Layout × Host → Prop}
    (h : act (nibble tracks, host) = onNibble tracks inner host) :
    Action.Ends act (nibble tracks, host) Q ↔
      Action.Ends inner (tracks, host) fun r after => Q r (nibble after.1, after.2) := by
  unfold Action.Ends EStateM.run
  rw [h, onNibble]
  cases inner (tracks, host) <;> rfl

theorem run_keeping {α : Type} {act : Action Host α} {a : α} {after : Host} (layout : Layout)
    (h : act.run host = .ok a after) : keeping layout act host = .ok a (layout, after) := by
  unfold EStateM.run at h
  simp only [keeping, h]

theorem Holds.run_readBlock (h : layout.Holds storage.size (host.contents storage.file) c)
    (hs : storage.Backed host) {block : Nat} (hb : block < layout.blocks) :
    ∃ layout', (readBlock storage block).run (layout, host) = .ok (c block) (layout', host) ∧
      layout'.geometry = layout.geometry ∧
      layout'.Holds storage.size (host.contents storage.file) c := by
  cases layout with
  | sequential layout =>
    have hread := Sequential.readBlock_eq hs h hb
    exact ⟨_, run_keeping _ (Action.run_ask_of_ok hread), rfl, h⟩
  | interleaved layout =>
    have hread := Interleaved.readBlock_eq hs h hb
    exact ⟨_, run_keeping _ (Action.run_ask_of_ok hread), rfl, h⟩
  | nibble layout =>
    have hread := Nibble.Holds.run_readBlock h hs hb
    obtain ⟨volume, sectors, hf, hc⟩ := h
    refine ⟨nibble layout.surveyed, ?_, rfl, volume, sectors, hf.surveyed, hc⟩
    unfold EStateM.run at hread ⊢
    simp only [readBlock, onNibble, hread]

theorem Holds.run_writeBlock (h : layout.Holds storage.size (host.contents storage.file) c)
    (hs : storage.Backed host) (hw : storage.readOnly = false) {block : Nat}
    (hb : block < layout.blocks) (bytes : Block) :
    ∃ layout' after, (writeBlock storage block bytes).run (layout, host) = .ok () (layout', after) ∧
      layout'.geometry = layout.geometry ∧
      Host.Kept storage.file (fun k => layout.base ≤ k) host after ∧
      layout'.Holds storage.size (after.contents storage.file) (Function.update c block bytes) := by
  cases layout with
  | sequential layout =>
    obtain ⟨after, hrun, hwritten⟩ := Sequential.run_writeBlock hs hw h.fits hb bytes
    refine ⟨_, after, run_keeping _ hrun, rfl, hwritten.mono ?_, h.fits,
      h.placed.replace hwritten Sequential.position_inj⟩
    rintro k ⟨i, -, rfl⟩
    exact layout.base_le_position block i
  | interleaved layout =>
    obtain ⟨after, hrun, hwritten⟩ := Interleaved.run_writeBlock hs hw h.whole h.fits hb bytes
    refine ⟨_, after, run_keeping _ hrun, rfl, hwritten.mono ?_, h.whole, h.fits,
      h.placed.replace hwritten Interleaved.position_inj⟩
    rintro k ⟨i, -, rfl⟩
    exact layout.base_le_position block i
  | nibble layout =>
    obtain ⟨after, hrun, hkept, hafter⟩ := Nibble.Holds.run_writeBlock h hs hw hb bytes
    refine ⟨nibble layout.surveyed, after, ?_, rfl, hkept.mono fun k hk => hk.1, hafter⟩
    unfold EStateM.run at hrun ⊢
    simp only [writeBlock, onNibble, hrun]

end Diskette.Layout
