import Diskette.Cache.Arena
import Mathlib.Data.List.Nodup

/-!
# Linked slots

`Leads link start slots stop`: from `start` on the links lead through the slots of a list, one after
the other, and then to `stop`. What is linked is changed by changing the link of the last slot of a
part of the list, or the start when there is no such slot.

* `leads_append`: a list of slots is linked if its parts are.
* `Leads.redirect`, `Leads.remove`, `Leads.snoc`: changes of links.
* `walk_eq_find?`, `predecessor?_eq_getLast?`: what the searches along a chain find.
-/

namespace Diskette.Arena

variable {link link' : Nat → Option Nat} {start start' stop target : Option Nat}
  {slots front back : List Nat} {slot : Nat}

/-- The links lead from `start` through the slots of the list to `stop`. -/
def Leads (link : Nat → Option Nat) : (start : Option Nat) → List Nat → (stop : Option Nat) → Prop
  | start, [], stop => start = stop
  | start, slot :: rest, stop => start = some slot ∧ Leads link (link slot) rest stop

theorem leads_append : Leads link start (front ++ back) stop ↔
    ∃ middle, Leads link start front middle ∧ Leads link middle back stop := by
  induction front generalizing start with
  | nil => simp [Leads]
  | cons slot rest ih => simp [Leads, ih, and_assoc]

/-- The links of other slots do not matter. -/
theorem Leads.congr (h : Leads link start slots stop) (hlink : ∀ i ∈ slots, link' i = link i) :
    Leads link' start slots stop := by
  induction slots generalizing start with
  | nil => exact h
  | cons slot rest ih =>
    refine ⟨h.1, ?_⟩
    rw [hlink slot (List.mem_cons_self ..)]
    exact ih h.2 fun i hi => hlink i (List.mem_cons_of_mem _ hi)

theorem leads_split : Leads link start (front ++ slot :: back) stop ↔
    Leads link start front (some slot) ∧ Leads link (link slot) back stop := by
  rw [leads_append]
  constructor
  · rintro ⟨middle, hfront, rfl, hback⟩
    exact ⟨hfront, hback⟩
  · rintro ⟨hfront, hback⟩
    exact ⟨_, hfront, rfl, hback⟩

theorem Leads.start_eq (h : Leads link start slots none) : start = slots.head? := by
  cases slots with
  | nil => exact h
  | cons slot rest => exact h.1

/-! ## A slot in the middle -/

theorem notMem_front (hnodup : (front ++ slot :: back).Nodup) : slot ∉ front := fun h =>
  (List.nodup_cons.mp (List.nodup_middle.mp hnodup)).1 (List.mem_append_left _ h)

theorem erase_middle (hnodup : (front ++ slot :: back).Nodup) :
    (front ++ slot :: back).erase slot = front ++ back := by
  rw [List.erase_append_right _ (notMem_front hnodup), List.erase_cons_head]

/-! ## Changes -/

/-- When the link of the last slot, or the start, is set to `target`, the slots lead there. -/
theorem Leads.redirect (h : Leads link start slots stop) (hnodup : slots.Nodup)
    (hlink : ∀ i ∈ slots, link' i = if slots.getLast? = some i then target else link i)
    (hstart : start' = if slots = [] then target else start) : Leads link' start' slots target := by
  rcases List.eq_nil_or_concat slots with rfl | ⟨init, last, rfl⟩
  · exact hstart
  · rw [List.concat_eq_append] at *
    rw [if_neg (by simp)] at hstart
    subst hstart
    obtain ⟨hinit, -⟩ := leads_split.mp h
    refine leads_split.mpr ⟨hinit.congr fun i hi => ?_, ?_⟩
    · have hne : last ≠ i := by
        rintro rfl
        exact (List.nodup_append.mp hnodup).2.2 _ hi _ (List.mem_singleton_self _) rfl
      rw [hlink i (List.mem_append_left _ hi), if_neg (by simpa using hne)]
    · have := hlink last (by simp)
      rwa [if_pos (by simp)] at this

/-- A slot is taken out by leading the slots in front of it to those behind it. -/
theorem Leads.remove (h : Leads link start (front ++ slot :: back) none)
    (hnodup : (front ++ slot :: back).Nodup)
    (hlink : ∀ i, i ≠ slot → link' i = if front.getLast? = some i then link slot else link i)
    (hstart : start' = if front = [] then link slot else start) :
    Leads link' start' (front ++ back) none := by
  obtain ⟨hf, hb⟩ := leads_split.mp h
  obtain ⟨hfront, hback, hdisjoint⟩ := List.nodup_append.mp hnodup
  refine leads_append.mpr ⟨link slot, hf.redirect hfront (fun i hi => hlink i ?_) hstart,
    hb.congr fun i hi => ?_⟩
  · exact fun he => notMem_front hnodup (he ▸ hi)
  · have hne : i ≠ slot := fun he => (List.nodup_cons.mp hback).1 (he ▸ hi)
    have hlast : front.getLast? ≠ some i := fun hl =>
      hdisjoint i (List.mem_of_getLast? hl) i (List.mem_cons_of_mem _ hi) rfl
    rw [hlink i hne, if_neg hlast]

/-- A slot is added at the end by leading the others to it. -/
theorem Leads.snoc (h : Leads link start slots none) (hnodup : slots.Nodup)
    (hlink : ∀ i ∈ slots, link' i = if slots.getLast? = some i then some slot else link i)
    (hslot : link' slot = none) (hstart : start' = if slots = [] then some slot else start) :
    Leads link' start' (slots ++ [slot]) none :=
  leads_append.mpr ⟨_, h.redirect hnodup hlink hstart, rfl, hslot⟩

/-! ## Searches -/

variable {arena : Arena} {block fuel : Nat}

/-- Walking along a chain finds the first of its slots that is bound to the block. -/
theorem walk_eq_find? (h : Leads (arena.linkAt .chain) start slots none)
    (hfuel : slots.length ≤ fuel) :
    arena.walk block fuel start = slots.find? fun i => arena.blockAt i = some block := by
  induction slots generalizing start fuel with
  | nil =>
    obtain rfl : start = none := h
    cases fuel <;> rfl
  | cons slot rest ih =>
    obtain ⟨rfl, hrest⟩ := h
    obtain ⟨fuel, rfl⟩ : ∃ fuel', fuel = fuel' + 1 := ⟨fuel - 1, by simp at hfuel; omega⟩
    rw [walk, List.find?_cons]
    by_cases hb : arena.blockAt slot = some block
    · simp [hb]
    · simp [hb, ih hrest (by simpa using hfuel)]

/-- The slot in front of another one in a chain is found. -/
theorem predecessor?_eq_getLast? (h : Leads (arena.linkAt .chain) start front (some slot))
    (hne : front ≠ []) (hslot : slot ∉ front) (hfuel : front.length ≤ fuel) :
    arena.predecessor? slot fuel start = front.getLast? := by
  induction front generalizing start fuel with
  | nil => exact absurd rfl hne
  | cons first rest ih =>
    obtain ⟨rfl, hrest⟩ := h
    obtain ⟨fuel, rfl⟩ : ∃ fuel', fuel = fuel' + 1 := ⟨fuel - 1, by simp at hfuel; omega⟩
    rw [predecessor?]
    cases rest with
    | nil =>
      have hlink : arena.linkAt .chain first = some slot := hrest
      rw [if_pos hlink]
      rfl
    | cons second rest =>
      have hlink : arena.linkAt .chain first = some second := hrest.1
      rw [if_neg, ih hrest (by simp) (fun hs => hslot (List.mem_cons_of_mem _ hs))
        (by simpa using hfuel)]
      · rfl
      · rw [hlink]
        rintro ⟨⟩
        exact hslot (by simp)

end Diskette.Arena
