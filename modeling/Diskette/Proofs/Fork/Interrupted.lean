import Diskette.Proofs.Bitmap.Allocator
import Diskette.Proofs.Fork.Files
import Diskette.Proofs.Fork.Flat

/-!
# Files that are freed in part

Freeing a file goes block by block, and stops where it comes to a node or a mini entry that cannot be
read. What was released until then stays released: nothing is undone. What is going to be released,
and where it stops, depends only on what there is to read.

* `Tree.releases`, `Descriptor.releases`: what freeing does in turn.
* `carriesOut_freeSubtree`, `carriesOut_freeFork`: and it does.
* `freeFork_stops`: what is left when it stops.
-/

namespace Diskette

open Diskette.Action

variable {κ : Type} [BlockStore κ] {s : κ} {content : Nat → Except DiskError Block}
  {bitmap : Bitmap} {descriptor : Descriptor} {e : DiskError}

/-! ## Plans -/

/-- What freeing does in turn: it releases a block, or it stops with an error. -/
abbrev Plan := List (Except DiskError Nat)

namespace Plan

variable {plan plan' : Plan}

/-- The blocks that are released before the first error. -/
def released : Plan → List Nat
  | .ok block :: rest => block :: released rest
  | _ => []

/-- The first error, if there is one. -/
def result : Plan → Except DiskError Unit
  | [] => .ok ()
  | .ok _ :: rest => result rest
  | .error e :: _ => .error e

theorem result_append (plan plan' : Plan) :
    result (plan ++ plan') = (do result plan; result plan') := by
  induction plan with
  | nil => rfl
  | cons step rest ih =>
    cases step with
    | ok block => exact ih
    | error e => rfl

theorem released_append_of_ok (h : plan.result = .ok ()) (plan' : Plan) :
    released (plan ++ plan') = released plan ++ released plan' := by
  induction plan with
  | nil => rfl
  | cons step rest ih =>
    cases step with
    | ok block => exact congrArg (block :: ·) (ih h)
    | error e => cases h

theorem released_append_of_error (h : plan.result = .error e) (plan' : Plan) :
    released (plan ++ plan') = released plan := by
  induction plan with
  | nil => cases h
  | cons step rest ih =>
    cases step with
    | ok block => exact congrArg (block :: ·) (ih h)
    | error e => rfl

/-- An error stands after the blocks that are released before it. -/
theorem exists_of_result_eq_error (h : plan.result = .error e) :
    ∃ rest, plan = plan.released.map .ok ++ .error e :: rest := by
  induction plan with
  | nil => cases h
  | cons step rest ih =>
    cases step with
    | ok block =>
      obtain ⟨left, hleft⟩ := ih h
      exact ⟨left, congrArg (.ok block :: ·) hleft⟩
    | error e' =>
      cases h
      exact ⟨rest, rfl⟩

/-- Something has to be read before it is known what comes next. -/
def afterRead {α : Type} (answer : Except DiskError α) (next : α → Plan) : Plan :=
  match answer with
  | .ok a => next a
  | .error e => [.error e]

theorem afterRead_ok {α : Type} (a : α) (next : α → Plan) :
    afterRead (.ok a) next = next a := rfl

theorem afterRead_error {α : Type} (e : DiskError) (next : α → Plan) :
    afterRead (.error e) next = [.error e] := rfl

end Plan

/-! ## What freeing does in turn -/

/-- The blocks of a tree, those under a node before the node. -/
def Tree.releases (content : Nat → Except DiskError Block) : (level root : Nat) → Plan
  | 0, root => if root = 0 then [] else [.ok root]
  | level + 1, root =>
    if root = 0 then []
    else Plan.afterRead (content root) fun node =>
      ((List.range 256).flatMap fun i => releases content level (Node.pointer node i)) ++ [.ok root]

namespace Descriptor

/-- What there is to read of a fork of an extended file. -/
def mini (content : Nat → Except DiskError Block) (keyBlock : Nat) (fork : Fork) :
    Except DiskError Descriptor :=
  match content keyBlock with
  | .ok key => parseMini (Bytes.ofSlice 8 key.data fork.entryOffset)
  | .error e => .error e

theorem mini_keyBlock {keyBlock : Nat} {dataEntry resourceEntry : Bytes 8}
    (answer : Fork → Except DiskError Descriptor)
    (h : content keyBlock = .ok (Draft.keyBlock dataEntry resourceEntry))
    (hdata : parseMini dataEntry = answer .data)
    (hresource : parseMini resourceEntry = answer .resource) (fork : Fork) :
    mini content keyBlock fork = answer fork := by
  simp only [mini, h, parseMini_keyBlock answer hdata hresource]

/-- The blocks of a fork of an extended file. -/
def plainReleases (content : Nat → Except DiskError Block) (plain : Descriptor) : Plan :=
  match plain.storageType.levels? with
  | some levels => Tree.releases content levels plain.keyBlock
  | none => []

/-- The blocks of a file, the key block of an extended one after its forks. -/
def releases (content : Nat → Except DiskError Block) (descriptor : Descriptor) : Plan :=
  match descriptor.storageType.levels? with
  | some levels => Tree.releases content levels descriptor.keyBlock
  | none =>
    Plan.afterRead (mini content descriptor.keyBlock .data) fun dataFork =>
      dataFork.plainReleases content ++
        Plan.afterRead (mini content descriptor.keyBlock .resource) fun resourceFork =>
          resourceFork.plainReleases content ++ [.ok descriptor.keyBlock]

theorem releases_extended (h : descriptor.storageType = .extended) :
    descriptor.releases content =
      Plan.afterRead (mini content descriptor.keyBlock .data) fun dataFork =>
        dataFork.plainReleases content ++
          Plan.afterRead (mini content descriptor.keyBlock .resource) fun resourceFork =>
            resourceFork.plainReleases content ++ [.ok descriptor.keyBlock] := by
  rw [releases, h]
  rfl

end Descriptor

/-! ## Carrying out a plan -/

/-- The blocks of the plan were released up to the first error, and there is the same to read. -/
structure Carried (content : Nat → Except DiskError Block) (plan : Plan) (before : Bitmap)
    (r : Except DiskError Unit) (after : κ × Bitmap) : Prop where
  readsAs : ReadsAs after.1 content
  result_eq : r = plan.result
  bitmap_eq : after.2 = before.releaseAll plan.released

/-- The action does what the plan says. -/
def CarriesOut (content : Nat → Except DiskError Block) (plan : Plan)
    (act : Action (κ × Bitmap) Unit) : Prop :=
  ∀ ⦃s : κ⦄ ⦃bitmap : Bitmap⦄, ReadsAs s content → Ends act (s, bitmap) (Carried content plan bitmap)

theorem carriesOut_pure : CarriesOut (κ := κ) content [] (pure ()) := fun _ _ h => ⟨h, rfl, rfl⟩

theorem carriesOut_releaseBlock (block : Nat) :
    CarriesOut (κ := κ) content [.ok block] (releaseBlock block) := fun _ _ h => ⟨h, rfl, rfl⟩

theorem CarriesOut.andThen {plan plan' : Plan} {act : Action (κ × Bitmap) Unit}
    {rest : Unit → Action (κ × Bitmap) Unit} (h : CarriesOut content plan act)
    (h' : CarriesOut content plan' (rest ())) : CarriesOut content (plan ++ plan') (act >>= rest) := by
  intro s bitmap hs
  refine (h hs).bind ?_ ?_
  · rintro ⟨⟩ ⟨s₁, bitmap₁⟩ h₁
    refine (h' h₁.readsAs).mono fun r after h₂ => ⟨h₂.readsAs, ?_, ?_⟩
    · rw [h₂.result_eq, Plan.result_append, ← h₁.result_eq]
      rfl
    · rw [h₂.bitmap_eq, Plan.released_append_of_ok h₁.result_eq.symm, Bitmap.releaseAll_append,
        ← h₁.bitmap_eq]
  · rintro e after h₁
    refine ⟨h₁.readsAs, ?_, ?_⟩
    · rw [Plan.result_append, ← h₁.result_eq]
      rfl
    · rw [Plan.released_append_of_error h₁.result_eq.symm, h₁.bitmap_eq]

theorem CarriesOut.afterRead {α : Type} {query : Action κ α} {answer : Except DiskError α}
    {next : α → Plan} {rest : α → Action (κ × Bitmap) Unit}
    (hquery : ∀ {s : κ}, ReadsAs s content → Ends query s fun r s' => ReadsAs s' content ∧ r = answer)
    (h : ∀ a, CarriesOut content (next a) (rest a)) :
    CarriesOut content (Plan.afterRead answer next) (onFirst query >>= rest) := by
  intro s bitmap hs
  have hfirst : Ends (onFirst query) (s, bitmap) fun r after =>
      ReadsAs after.1 content ∧ r = answer ∧ after.2 = bitmap :=
    ends_onFirst.mpr ((hquery hs).mono fun _ _ hr => ⟨hr.1, hr.2, rfl⟩)
  refine hfirst.bind ?_ ?_
  · rintro a ⟨s₁, _⟩ ⟨hs₁, rfl, rfl⟩
    exact h a hs₁
  · rintro e ⟨s₁, _⟩ ⟨hs₁, rfl, rfl⟩
    exact ⟨hs₁, rfl, rfl⟩

/-! ## Freeing -/

theorem carriesOut_freeChildren {child : Nat → Action (κ × Bitmap) Unit} {planOf : Nat → Plan}
    (hchild : ∀ root, CarriesOut content (planOf root) (child root)) (node : Block) (count : Nat) :
    ∀ index, CarriesOut content
      ((List.range' index count).flatMap fun i => planOf (Node.pointer node i))
      (freeChildren child node count index) := by
  induction count with
  | zero => exact fun _ => carriesOut_pure
  | succ count ih =>
    intro index
    rw [freeChildren, List.range'_succ, List.flatMap_cons]
    exact (hchild _).andThen (ih (index + 1))

/-- A tree is freed as far as it can be read. -/
theorem carriesOut_freeSubtree (level : Nat) : ∀ root,
    CarriesOut (κ := κ) content (Tree.releases content level root) (freeSubtree level root) := by
  induction level with
  | zero =>
    intro root
    unfold freeSubtree Tree.releases
    split
    · exact carriesOut_pure
    · exact carriesOut_releaseBlock root
  | succ level ih =>
    intro root
    unfold freeSubtree Tree.releases
    split
    · exact carriesOut_pure
    · refine .afterRead (fun h => h.read_ends root) fun node => ?_
      rw [List.range_eq_range']
      exact (carriesOut_freeChildren ih node 256 0).andThen (carriesOut_releaseBlock root)

theorem carriesOut_freePlain (plain : Descriptor) :
    CarriesOut (κ := κ) content (plain.plainReleases content) (freePlain plain) := by
  unfold freePlain Descriptor.plainReleases
  cases plain.storageType.levels? with
  | some levels => exact carriesOut_freeSubtree levels plain.keyBlock
  | none => exact carriesOut_pure

/-- A fork of an extended file is found if its key block and its mini entry can be read. -/
theorem normalize_mini_ends (he : descriptor.storageType = .extended) (h : ReadsAs s content)
    (fork : Fork) :
    Ends (normalize descriptor fork) s fun r s' =>
      ReadsAs s' content ∧ r = Descriptor.mini content descriptor.keyBlock fork := by
  simp only [normalize_extended he, ends_bind, ends_ofExcept, Descriptor.mini]
  refine (h.read_ends descriptor.keyBlock).mono ?_
  rintro r s₁ ⟨h₁, hr⟩
  rw [← hr]
  cases r with
  | ok key => exact ⟨h₁, rfl⟩
  | error e => exact ⟨h₁, rfl⟩

/-- A file is freed as far as it can be read. -/
theorem carriesOut_freeFork (descriptor : Descriptor) :
    CarriesOut (κ := κ) content (descriptor.releases content) (freeFork descriptor) := by
  unfold freeFork Descriptor.releases
  cases hlevels : descriptor.storageType.levels? with
  | some levels => exact carriesOut_freeSubtree levels descriptor.keyBlock
  | none =>
    have he : descriptor.storageType = .extended := by
      cases hs : descriptor.storageType with
      | extended => rfl
      | seedling | sapling | tree =>
        rw [hs] at hlevels
        cases hlevels
    refine .afterRead (fun h => normalize_mini_ends he h .data) fun dataFork => ?_
    refine (carriesOut_freePlain dataFork).andThen ?_
    refine .afterRead (fun h => normalize_mini_ends he h .resource) fun resourceFork => ?_
    exact (carriesOut_freePlain resourceFork).andThen (carriesOut_releaseBlock _)

/-- What is left of a free that fails. The blocks that come before the error are released, and nothing
takes them back: those among them that the volume has and that were in use are free now. -/
theorem freeFork_stops {after : κ × Bitmap} (h : ReadsAs s content)
    (hrun : (freeFork descriptor).run (s, bitmap) = .error e after) :
    ∃ released rest, descriptor.releases content = released.map .ok ++ .error e :: rest ∧
      after.2 = bitmap.releaseAll released ∧ ReadsAs after.1 content ∧
      (∀ block, after.2.isFree block =
        (bitmap.isFree block || decide (block ∈ bitmap.returned released))) ∧
      after.2.freeBlocks = bitmap.freeBlocks + (bitmap.returned released).length := by
  have hends := (carriesOut_freeFork descriptor h).of_error hrun
  obtain ⟨rest, hplan⟩ := Plan.exists_of_result_eq_error hends.result_eq.symm
  refine ⟨_, rest, hplan, hends.bitmap_eq, hends.readsAs, fun block => ?_, ?_⟩
  · rw [hends.bitmap_eq, Bitmap.isFree_releaseAll_eq]
  · rw [hends.bitmap_eq]
    exact (Bitmap.took_returned _ bitmap).freeBlocks_add.symm

/-- The data fork of an extended file is one block, and there is no storage type 4, which the mini
entry of its resource fork has. It is not freed, but its data fork is. -/
theorem freeFork_stops_memory :
    let key := Draft.keyBlock (Bytes.ofList 8 [1, 3, 0, 1, 0, 1, 0, 0]) (Bytes.ofList 8 [4])
    let memory : Memory := ⟨16, Function.update (fun _ => Bytes.zero 512) 2 key⟩
    let bitmap := Bitmap.serveAll ([0, 1, 2, 3].map .one) (Bitmap.freshly 16)
    ∃ after, (freeFork ⟨.extended, 2, 2, 512⟩).run (memory, bitmap) =
        .error (.invalidStorageType 4) after ∧
      bitmap.isFree 3 = false ∧ after.2.isFree 3 = true ∧ bitmap.freeBlocks = 12 ∧
      after.2.freeBlocks = 13 := by
  intro key memory bitmap
  let content : Nat → Except DiskError Block := fun block =>
    if block < 16 then .ok (memory.blocks block) else .error (.blockOutOfRange block 16)
  have h : ReadsAs memory content := (Memory.exactStore 16).readsAs ⟨rfl, rfl⟩
  have hkey : content 2 = .ok key := by simp [content, memory]
  let answer : Fork → Except DiskError Descriptor :=
    Fork.pick (.ok ⟨.seedling, 3, 1, 1⟩) (.error (.invalidStorageType 4))
  have hmini := Descriptor.mini_keyBlock answer hkey (by decide +kernel) (by decide +kernel)
  have hdata : Descriptor.mini content 2 .data = .ok ⟨.seedling, 3, 1, 1⟩ := hmini .data
  have hresource : Descriptor.mini content 2 .resource = .error (.invalidStorageType 4) :=
    hmini .resource
  -- The key block names block 3 first; the second entry stops the release.
  have hplan : Descriptor.releases content ⟨.extended, 2, 2, 512⟩ =
      [.ok 3, .error (.invalidStorageType 4)] := by
    rw [Descriptor.releases_extended rfl, hdata, Plan.afterRead_ok, hresource, Plan.afterRead_error]
    rfl
  have houtcome : (freeFork ⟨.extended, 2, 2, 512⟩).outcome (memory, bitmap) =
      .error (.invalidStorageType 4) := by
    rw [(ends_iff.mp (carriesOut_freeFork _ h)).result_eq, hplan]
    rfl
  have hrun := run_eq_error_of_outcome houtcome
  obtain ⟨released, rest, hsplit, -, -, hfree, hcount⟩ := freeFork_stops h hrun
  obtain rfl : released = [3] := by
    rw [hplan] at hsplit
    rcases released with - | ⟨block, - | ⟨other, rest⟩⟩ <;> simp_all
  refine ⟨_, hrun, by decide, ?_, by decide, ?_⟩
  · rw [hfree]
    decide
  · rw [hcount]
    decide

end Diskette
