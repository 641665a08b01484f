import Diskette.Proofs.Bitmap.Persistence

/-!
# How far storing a bitmap gets

The blocks of a bitmap are stored one after the other, and storing ends at the first one that is
refused. Those before it are not put back: they show the bitmap, while the ones from there on show
what they showed before. So a bitmap is stored in part exactly if a block other than its first one is
refused, and that changes something unless the blocks before held the same bytes already.

* `overlay`: an array with the first blocks of a bitmap in it.
* `writeStored_stops`: the run of writes, in any store.
* `write_stops`: what is left of a bitmap that could not be stored.
* `write_exact`: how much that is in a store that fails only where it has to.
-/

namespace Diskette

open Diskette.Action

variable {κ : Type} [BlockStore κ] {Holds : κ → (Nat → Block) → Prop} {s after : κ}
  {c : Nat → Block} {e : DiskError} {n start count : Nat} {readOnly : Bool} {bitmap : Bitmap}

/-- No block has the last number: the number of blocks has 32 bits like that of each of them. -/
def LacksLast (Holds : κ → (Nat → Block) → Prop) : Prop :=
  ∀ ⦃s after c block data⦄, Holds s c → (BlockStore.writeBlock block data).run s = .ok () after →
    block < 0xFFFFFFFF

theorem ArrayStore.lacksLast (hS : ArrayStore n Holds) (hn : n < 0x100000000) : LacksLast Holds :=
  fun _ _ _ _ _ h hw => Nat.lt_of_lt_of_le (hS.lt_of_write h hw) (by omega)

namespace Bitmap

/-! ## A bitmap that is stored in part -/

/-- The array `c` with the first `count` blocks of the bitmap in it, from block `start` on. -/
def overlay (bitmap : Bitmap) (start count : Nat) (c : Nat → Block) (block : Nat) : Block :=
  if start ≤ block ∧ block < start + count then bitmap.storedBlock (block - start) else c block

@[simp] theorem overlay_zero : bitmap.overlay start 0 c = c := by
  funext block
  exact if_neg (by omega)

theorem overlay_succ :
    bitmap.overlay start (count + 1) c =
      Function.update (bitmap.overlay start count c) (start + count) (bitmap.storedBlock count) := by
  funext block
  by_cases h : block = start + count
  · subst h
    rw [Function.update_self, overlay, if_pos (by omega), Nat.add_sub_cancel_left]
  · rw [Function.update_of_ne h]
    simp only [overlay]
    split
    · rw [if_pos (by omega)]
    · rw [if_neg (by omega)]

/-- A bitmap leaves no trace where its blocks were there before. -/
theorem overlay_eq_iff :
    bitmap.overlay start count c = c ↔ ∀ i, i < count → c (start + i) = bitmap.storedBlock i := by
  constructor
  · intro h i hi
    rw [← congrFun h (start + i), overlay, if_pos (by omega), Nat.add_sub_cancel_left]
  · intro h
    funext block
    unfold overlay
    split
    · next hin =>
      have hat := h (block - start) (by omega)
      rw [Nat.add_sub_cancel' hin.1] at hat
      exact hat.symm
    · rfl

/-! ## Storing -/

/-- Storing goes on block by block. It ends well when all are stored, and else at one that the store
refuses, whose turn it is after those before it. -/
theorem writeStored_stops (hF : Faithful BlockStore.readBlock BlockStore.writeBlock Holds)
    (hlast : LacksLast Holds) (count : Nat) :
    ∀ {s : κ} {i : Nat}, Holds s (bitmap.overlay start i c) →
      Ends (writeStored bitmap start count i) s fun r s' => ∃ k, k ≤ count ∧
        Holds s' (bitmap.overlay start (i + k) c) ∧
        match r with
        | .ok () => k = count
        | .error e => k < count ∧ ∃ middle,
          (writeStored bitmap start k i).run s = .ok () middle ∧
          Holds middle (bitmap.overlay start (i + k) c) ∧
          (BlockStore.writeBlock (storedAt start (i + k)) (bitmap.storedBlock (i + k))).run middle =
            .error e s' := by
  -- On the blocks that are left. The array is known as the bitmap laid over it up to here.
  induction count with
  | zero => exact fun {s i} h => ⟨0, Nat.le_refl 0, h, rfl⟩
  | succ count ih =>
    intro s i h
    have hfirst := hF.write_ends h (storedAt start i) (bitmap.storedBlock i)
    cases hw : (BlockStore.writeBlock (storedAt start i) (bitmap.storedBlock i)).run s with
    | error e s' =>
      have hs' : Holds s' (bitmap.overlay start i c) := hfirst.of_error hw
      rw [writeStored, ends_bind, ends_of_run_eq_error hw]
      exact ⟨0, Nat.zero_le _, hs', Nat.succ_pos _, s, rfl, h, hw⟩
    | ok _ s' =>
      -- The number of a block that was taken was not cut, so it is the next one of the array.
      have hat : storedAt start i = start + i := by
        have := hlast h hw
        unfold storedAt at this ⊢
        omega
      have hs' : Holds s' (bitmap.overlay start (i + 1) c) := by
        rw [overlay_succ, ← hat]
        exact hfirst.of_ok hw
      have hrun {k : Nat} : (writeStored bitmap start (k + 1) i).run s =
          (writeStored bitmap start k (i + 1)).run s' := by
        rw [writeStored, run_bind_of_ok hw]
      rw [writeStored, ends_bind, ends_of_run_eq_ok hw]
      refine (ih hs').mono ?_
      rintro r s'' ⟨k, hk, hholds, hr⟩
      rw [Nat.add_assoc, Nat.add_comm 1] at hholds
      refine ⟨k + 1, Nat.succ_le_succ hk, hholds, ?_⟩
      cases r with
      | ok _ => exact congrArg Nat.succ hr
      | error e =>
        obtain ⟨hlt, middle, hstored, hmiddle, hrefused⟩ := hr
        rw [Nat.add_assoc, Nat.add_comm 1] at hmiddle hrefused
        exact ⟨Nat.succ_lt_succ hlt, middle, hrun.trans hstored, hmiddle, hrefused⟩

/-- What is left of a bitmap that could not be stored. One of its blocks was refused, and those before
it had been stored. They stay: the array is as before only if it held those blocks already. -/
theorem write_stops (hF : Faithful BlockStore.readBlock BlockStore.writeBlock Holds)
    (hlast : LacksLast Holds) (h : Holds s c) (hrun : (bitmap.write start).run s = .error e after) :
    ∃ k middle, k < storedBlocks bitmap.blocks ∧
      (writeStored bitmap start k 0).run s = .ok () middle ∧
      (BlockStore.writeBlock (storedAt start k) (bitmap.storedBlock k)).run middle =
        .error e after ∧
      Holds after (bitmap.overlay start k c) ∧
      (bitmap.overlay start k c = c ↔ ∀ i, i < k → c (start + i) = bitmap.storedBlock i) := by
  have h₀ : Holds s (bitmap.overlay start 0 c) := by rwa [overlay_zero]
  obtain ⟨k, -, hafter, hlt, middle, hstored, -, hrefused⟩ :=
    (writeStored_stops hF hlast _ h₀).of_error hrun
  rw [Nat.zero_add] at hafter hrefused
  exact ⟨k, middle, hlt, hstored, hrefused, hafter, overlay_eq_iff⟩

/-- The bitmap of 4097 blocks takes two, but from block 7 on there is only one. It is not stored, and
yet block 7 is changed. -/
theorem write_stops_memory :
    let bitmap := freshly 4097
    let memory := Memory.zeros 8
    ∃ after, (bitmap.write 7).run memory = .error (.blockOutOfRange 8 8) after ∧
      after.blocks 7 = bitmap.storedBlock 0 ∧ after.blocks 7 ≠ memory.blocks 7 := by
  intro bitmap memory
  have hS := Memory.exactStore 8
  have hrun : (bitmap.write 7).run memory = .error (.blockOutOfRange 8 8) _ :=
    run_eq_error_of_outcome (by decide +kernel)
  obtain ⟨k, middle, hk, hstored, hrefused, ⟨-, hblocks⟩, -⟩ :=
    write_stops hS.toFaithful (hS.arrayStore.lacksLast (by decide)) ⟨rfl, rfl⟩ hrun
  -- The first of the two blocks is not the one that is refused.
  obtain rfl : k = 1 := by
    have hcount : storedBlocks bitmap.blocks = 2 := by
      rw [blocks_freshly]
      rfl
    rcases k with - | k
    · obtain rfl : memory = middle := (EStateM.Result.ok.inj hstored).2
      have haccepted := hS.write_outcome (s := memory) ⟨rfl, rfl⟩ (storedAt 7 0)
        (bitmap.storedBlock 0)
      rw [run_eq_ok_of_outcome haccepted] at hrefused
      cases hrefused
    · omega
  have hat := congrFun hblocks 7
  refine ⟨_, hrun, hat, fun hsame => ?_⟩
  have hbit := Packed.testBit_storedBlock bitmap 0 (by decide : 0 < 512) (by decide : 0 < 8)
  rw [isFree_freshly] at hbit
  rw [hat] at hsame
  have hzero : bitmap.storedBlock 0 = Bytes.zero 512 := hsame
  rw [hzero, Bytes.byte_zero] at hbit
  cases hbit

/-! ## How much is stored -/

/-- The number of blocks of a bitmap of `count` blocks that a store of `n` blocks takes. -/
def accepted (n : Nat) (readOnly : Bool) (start count : Nat) : Nat :=
  if readOnly then 0 else min count (n - start)

theorem le_of_run_writeStored (hS : ExactStore n readOnly Holds) (hn : n < 0x100000000)
    (count : Nat) :
    ∀ {s after : κ} {c : Nat → Block} {i : Nat}, Holds s c →
      (writeStored bitmap start (count + 1) i).run s = .ok () after →
      readOnly = false ∧ start + i + (count + 1) ≤ n := by
  induction count with
  | zero =>
    intro s after c i h hrun
    obtain ⟨⟨⟩, middle, hw, -⟩ := exists_of_run_bind hrun
    have hlt := hS.arrayStore.lt_of_write h hw
    have houtcome := (outcome_of_run_eq_ok hw).symm.trans (hS.write_outcome h _ _)
    rw [if_pos hlt] at houtcome
    rw [storedAt_eq hlt hn] at hlt
    cases readOnly with
    | false => exact ⟨rfl, hlt⟩
    | true => cases houtcome
  | succ count ih =>
    intro s after c i h hrun
    obtain ⟨⟨⟩, middle, hw, hrest⟩ := exists_of_run_bind hrun
    obtain ⟨hwrite, hle⟩ := ih ((hS.write_ends h _ _).of_ok hw) hrest
    exact ⟨hwrite, by omega⟩

/-- The block that is refused comes after all that the store takes, and what is wrong with it is
known. -/
theorem accepted_of_refused (hS : ExactStore n readOnly Holds) (hn : n < 0x100000000) {k : Nat}
    {middle : κ} (h : Holds middle c) (hlt : k < count)
    (hstored : k = 0 ∨ readOnly = false ∧ start + k ≤ n)
    (hrefused : (BlockStore.writeBlock (storedAt start k) (bitmap.storedBlock k)).run middle =
      .error e after) :
    accepted n readOnly start count = k ∧
      e = if start + k < n then .readOnly else .blockOutOfRange (storedAt start k) n := by
  have houtcome := hS.write_outcome h (storedAt start k) (bitmap.storedBlock k)
  rw [outcome_of_run_eq_error hrefused] at houtcome
  by_cases hin : storedAt start k < n
  · have hat := storedAt_eq hin hn
    rw [if_pos hin] at houtcome
    cases readOnly with
    | false => cases houtcome
    | true =>
      obtain rfl : k = 0 := by simpa using hstored
      exact ⟨rfl, by rw [if_pos (hat ▸ hin), Except.error.inj houtcome]⟩
  · rw [if_neg hin] at houtcome
    have hout : n ≤ start + k := by
      unfold storedAt at hin
      omega
    refine ⟨by grind [accepted], ?_⟩
    rw [if_neg (Nat.not_lt.mpr hout), Except.error.inj houtcome]

/-- Of a bitmap that a store does not take as a whole it takes what there is room for, and nothing if
it is protected. -/
theorem write_exact (hS : ExactStore n readOnly Holds) (hn : n < 0x100000000) (h : Holds s c)
    (bitmap : Bitmap) (start : Nat) :
    let k := accepted n readOnly start (storedBlocks bitmap.blocks)
    Ends (bitmap.write start) s fun r s' => Holds s' (bitmap.overlay start k c) ∧
      r = if k = storedBlocks bitmap.blocks then .ok ()
        else if start + k < n then .error .readOnly
        else .error (.blockOutOfRange (storedAt start k) n) := by
  intro k
  have h₀ : Holds s (bitmap.overlay start 0 c) := by rwa [overlay_zero]
  have hends : Ends (bitmap.write start) s _ := writeStored_stops hS.toFaithful
    (hS.arrayStore.lacksLast hn) (storedBlocks bitmap.blocks) h₀
  rw [ends_iff] at hends ⊢
  obtain ⟨j, -, hholds, hj⟩ := hends
  rw [Nat.zero_add] at hholds
  -- What was stored tells that there was room for it, and the refusal that there is no more.
  have hstores {middle : κ} (hstored : (writeStored bitmap start j 0).run s = .ok () middle) :
      j = 0 ∨ readOnly = false ∧ start + j ≤ n := by
    rcases j with - | j
    · exact .inl rfl
    · exact .inr (le_of_run_writeStored hS hn j h hstored)
  cases hr : (bitmap.write start).outcome s with
  | ok _ =>
    rw [hr] at hj
    obtain rfl : j = storedBlocks bitmap.blocks := hj
    have hk : k = storedBlocks bitmap.blocks := by
      have := hstores (run_eq_ok_of_outcome hr)
      grind [accepted]
    rw [hk, if_pos rfl]
    exact ⟨hholds, rfl⟩
  | error e =>
    rw [hr] at hj
    obtain ⟨hlt, middle, hstored, hmiddle, hrefused⟩ := hj
    rw [Nat.zero_add] at hmiddle hrefused
    obtain ⟨hk, rfl⟩ := accepted_of_refused hS hn hmiddle hlt (hstores hstored) hrefused
    obtain rfl : j = k := hk.symm
    rw [if_neg (Nat.ne_of_lt hlt)]
    exact ⟨hholds, apply_ite ..⟩

end Bitmap

end Diskette
