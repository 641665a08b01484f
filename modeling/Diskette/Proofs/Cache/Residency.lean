import Diskette.Proofs.Cache.Strategy
import Diskette.Proofs.Device.RoundTrip
import Diskette.Proofs.Pool.Recency

/-!
# Which blocks a pooled cache holds

As long as no block stays checked out, a pooled cache holds the blocks that were read or replaced
last, as many as it has buffers, if the device never fails. To mark a block as changed, to sync, or
to ask for a block that the device does not have makes no difference, and a block that may not be
replaced because the device is protected has been accessed all the same.

* `Request.accesses`: the blocks that requests read or replace.
* `Pool.rests_perform`, `Pool.rests_performAll`: what one request does to the queue of the buffers,
  and what many do.
* `Cache.holds_recent_blocks`: which blocks are in the pool.
-/

namespace Diskette

open Diskette.Action

namespace Request

/-- The request leaves no more checked out than before. -/
def Passing : Request → Prop
  | .readBlock _ | .writeBlock _ _ | .zeroBlock _ | .markDirty _ | .sync => True
  | _ => False

instance : DecidablePred Passing
  | .readBlock _ | .writeBlock _ _ | .zeroBlock _ | .markDirty _ | .sync => .isTrue trivial
  | .acquire _ | .data _ | .update _ _ | .release _ _ _ => .isFalse id

/-- The block of a disk of `size` blocks that is read or replaced. -/
def accessed? (size : Nat) : Request → Option Nat
  | .readBlock block | .writeBlock block _ | .zeroBlock block =>
    if block < size then some block else none
  | _ => none

/-- The blocks that are read or replaced, in the order of the requests. -/
def accesses (size : Nat) (requests : List Request) : List Nat :=
  requests.filterMap (accessed? size)

end Request

namespace Pool

variable {δ : Type} [Disk δ] {size buffers : Nat} {readOnly : Bool} {Sound : δ → Prop}
  {state state' : Pool × δ} {accesses : List Nat} {block : Nat}

/-- Nothing is checked out of the pool, and its queue is that of the accesses. -/
structure Rests (size buffers : Nat) (readOnly : Bool) (Sound : δ → Prop) (accesses : List Nat)
    (state : Pool × δ) : Prop where
  tidy : Tidy size state
  queues : Queues buffers (accesses.dedup.rtake buffers) state.1
  supplied : Supplied readOnly Sound state

/-- What leaves the slots alone leaves the queue alone. -/
private theorem Rests.same {α : Type} {act : Action (Pool × δ) α}
    (h : Rests size buffers readOnly Sound accesses state)
    (hslots : Ends act state fun _ s' => SameSlots state.1 s'.1)
    (hlevel : Ends act state fun _ s' => Level size state s')
    (hsupplied : Ends act state fun _ s' => Supplied readOnly Sound s') :
    Ends act state fun _ s' => Rests size buffers readOnly Sound (accesses ++ []) s' := by
  rw [List.append_nil]
  refine ((hslots.and hlevel).and hsupplied).mono ?_
  rintro _ s' ⟨⟨hsame, htidy, -⟩, hs⟩
  exact ⟨htidy, h.queues.of_sameSlots hsame, hs⟩

/-- An access moves its block to the end of the queue, if the disk has it. -/
private theorem Rests.access {α : Type} {act : Action (Pool × δ) α} (hD : Dependable readOnly Sound)
    (hO : Oblivious δ) (hpos : 0 < buffers) (h : Rests size buffers readOnly Sound accesses state)
    (hvisits : Ends act state fun _ s' => Visits block state s')
    (hlevel : Ends act state fun _ s' => Level size state s')
    (hsupplied : block < size → Ends act state fun _ s' => Supplied readOnly Sound s') :
    Ends act state fun _ s' => Rests size buffers readOnly Sound
      (accesses ++ (if block < size then some block else none).toList) s' := by
  by_cases hb : block < size
  · obtain ⟨⟨handle, hr⟩, -⟩ := ends_iff.mp (supplied_acquire hD hO h.tidy h.supplied hb)
    have hrun := run_eq_ok_of_outcome hr
    have hlends := (acquire_lends block).of_ok hrun
    refine ((hvisits.and hlevel).and (hsupplied hb)).mono ?_
    rintro _ s' ⟨⟨hvisit, htidy, -⟩, hs⟩
    unfold Visits at hvisit
    rw [hrun] at hvisit
    rw [if_pos hb, Option.toList_some]
    refine ⟨htidy, ?_, hs⟩
    rw [rtake_dedup_concat]
    exact (h.queues.access h.tidy.valid hpos hlends.2).of_sameSlots hvisit
  · have hrun : (acquire block).run state = .error (.blockOutOfRange block size) state :=
      run_acquire_of_blocks_le h.tidy.valid h.tidy.blocks_eq (Nat.le_of_not_lt hb)
    refine hvisits.mono ?_
    rintro _ s' hvisit
    unfold Visits at hvisit
    rw [hrun] at hvisit
    rw [if_neg hb, Option.toList_none, List.append_nil]
    exact hvisit ▸ h

/-- What one request does to the queue. -/
theorem rests_perform (hD : Dependable readOnly Sound) (hO : Oblivious δ) (hpos : 0 < buffers)
    (h : Rests size buffers readOnly Sound accesses state) {request : Request}
    (hr : request.Passing) :
    Ends request.perform state fun _ s' =>
      Rests size buffers readOnly Sound (accesses ++ (request.accessed? size).toList) s' := by
  have hv := h.tidy.valid
  cases request with
  | readBlock block =>
    exact (h.access hD hO hpos (readBlock_slots hv block) (level_readBlock hO h.tidy block)
      (supplied_readBlock hD hO h.tidy h.supplied)).bind (fun _ _ hs => hs) fun _ _ hs => hs
  | writeBlock block bytes =>
    exact (h.access hD hO hpos (writeBlock_slots hv block bytes)
      (level_writeBlock hO h.tidy block bytes)
      fun hb => supplied_writeBlock hD hO h.tidy h.supplied hb bytes).bind (fun _ _ hs => hs)
        fun _ _ hs => hs
  | zeroBlock block =>
    exact (h.access hD hO hpos (writeBlock_slots hv block _) (level_writeBlock hO h.tidy block _)
      fun hb => supplied_writeBlock hD hO h.tidy h.supplied hb _).bind (fun _ _ hs => hs)
        fun _ _ hs => hs
  | markDirty block =>
    exact (h.same (markDirty_slots block) (level_markDirty h.tidy block)
      (supplied_markDirty hD h.supplied block)).bind (fun _ _ hs => hs) fun _ _ hs => hs
  | sync =>
    exact (h.same sync_slots (level_sync hO h.tidy) (supplied_sync hD hO h.tidy h.supplied)).bind
      (fun _ _ hs => hs) fun _ _ hs => hs
  | acquire | data | update | release => exact hr.elim

/-- What requests do to the queue. -/
theorem rests_performAll (hD : Dependable readOnly Sound) (hO : Oblivious δ) (hpos : 0 < buffers)
    {requests : List Request} : ∀ {accesses : List Nat} {state : Pool × δ},
      Rests size buffers readOnly Sound accesses state → (∀ request ∈ requests, request.Passing) →
      Rests size buffers readOnly Sound (accesses ++ Request.accesses size requests)
        (Request.performAll requests state).2 := by
  induction requests with
  | nil =>
    intro accesses state h _
    rwa [Request.accesses, List.filterMap_nil, List.append_nil]
  | cons request rest ih =>
    intro accesses state h hr
    have hstep := ends_iff.mp (rests_perform hD hO hpos h (hr request List.mem_cons_self))
    have hrest := ih hstep fun r hmem => hr r (List.mem_cons_of_mem _ hmem)
    have hsplit : Request.accesses size (request :: rest) =
        (request.accessed? size).toList ++ Request.accesses size rest := by
      unfold Request.accesses
      rw [List.filterMap_cons]
      cases request.accessed? size <;> rfl
    rwa [hsplit, ← List.append_assoc]

/-- A new pool rests. -/
theorem rests_ofSize {disk : δ} (h : Sound disk) (buffers : Nat) :
    Rests (Disk.blocks disk) buffers readOnly Sound [] (ofSize buffers, disk) where
  tidy := ⟨rfl, valid_ofSize _ _⟩
  queues := by simpa using queues_ofSize buffers
  supplied := ⟨h, writable_ofSize buffers⟩

end Pool

namespace Cache

/-- Before a device that does not fail, a pool without checked-out blocks keeps its size, and it
holds the distinct blocks that were read or replaced last, as many as it has buffers. Of the accesses
to one block `List.dedup` keeps the last one, so the blocks stand in the order of their last access. -/
theorem holds_recent_blocks {device : Device} {host : Host} {Sound : Device × Host → Prop}
    (hD : Dependable device.readOnly Sound) (hs : Sound (device, host)) (size : Nat)
    {requests : List Request} (hr : ∀ request ∈ requests, request.Passing) :
    let buffers := max size minPoolSize
    let recent := (Request.accesses device.blocks requests).dedup.rtake buffers
    let cache := (Request.performAll requests (ofPool device size, host)).2.1
    cache.entries? = some buffers ∧
      ∀ block, cache.resident? block = some (decide (block ∈ recent)) := by
  intro buffers recent cache
  have hpos : 0 < buffers := Nat.lt_of_lt_of_le (by decide) (Nat.le_max_right _ _)
  have hrests := Pool.rests_performAll hD Device.oblivious hpos (Pool.rests_ofSize hs buffers) hr
  rw [List.nil_append] at hrests
  have hcache : cache = (ofState (Request.performAll requests
      (Pool.ofSize buffers, device, host)).2).1 := by
    have hstart : (ofPool device size, host) = ofState (Pool.ofSize buffers, device, host) := rfl
    show (Request.performAll requests (ofPool device size, host)).2.1 = _
    rw [hstart, performAll_ofState]
  rw [hcache]
  refine ⟨congrArg some hrests.queues.size_eq, fun block => congrArg some ?_⟩
  rw [Bool.eq_iff_iff, decide_eq_true_iff]
  exact hrests.queues.resident_iff hrests.tidy.valid

/-- A new image of 140 KB behind the least number of buffers: after as many other blocks were read,
the first block is no longer in the pool. -/
theorem holds_recent_blocks_created :
    ∃ device created, (Device.create "disk.po" .proDosOrder 280 {}).run Host.empty =
        .ok device created ∧
      let cache := (Request.performAll ((List.range 17).map .readBlock)
        (ofPool device 16, created)).2.1
      cache.entries? = some 16 ∧ cache.resident? 0 = some false ∧ cache.resident? 1 = some true := by
  obtain ⟨device, created, hcreate, hfresh, hblocks⟩ := Device.exists_created
  have hpassing : ∀ request ∈ (List.range 17).map .readBlock, Request.Passing request := by decide
  obtain ⟨hentries, hresident⟩ := holds_recent_blocks
    (Device.arrayDisk (device, created)).dependable ⟨_, .refl _, hfresh.holds⟩ 16 hpassing
  rw [hblocks] at hresident
  exact ⟨device, created, hcreate, hentries, hresident 0, hresident 1⟩

end Cache

end Diskette
