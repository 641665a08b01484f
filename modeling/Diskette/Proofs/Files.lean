import Diskette.Proofs.Bytes
import Diskette.Storage

/-!
# What happens to files

Most of what a device does to the host is to write over a part of one file. `Host.Kept` says what
stays: the access that every file grants, the contents of the other files, and in the one file its
size and all bytes but those at free positions.

* `Host.Kept.refl`, `Host.Kept.trans`, `Host.Kept.mono`: a preorder, for each set of free positions.
* `Host.kept_writeAt`: a write inside a file.
* `Host.writeAt_writeAt`: of two writes at one place the second one counts.
* `Storage.Backed`: a storage whose file has as many bytes as when it was opened.
-/

namespace Diskette

/-- The access that a file grants once it was given contents: a name that was removed is given to a
new file. -/
def Access.renewed : Access → Access
  | .removed => .readWrite
  | access => access

namespace Host

variable {host before after : Host} {file : String} {free : Nat → Prop}

/-- The access that the file of that name grants. -/
def access? (host : Host) (name : String) : Option Access := (host.find? name).map (·.access)

/-- From `before` to `after` nothing was changed but the bytes of one file at free positions. -/
structure Kept (file : String) (free : Nat → Prop) (before after : Host) : Prop where
  access_eq (name : String) : after.access? name = before.access? name
  contents_eq {name : String} (h : name ≠ file) : after.contents name = before.contents name
  size_eq : (after.contents file).size = (before.contents file).size
  byte_eq {i : Nat} (h : ¬ free i) : byteAt (after.contents file) i = byteAt (before.contents file) i

theorem Kept.refl : Kept file free host host := ⟨fun _ => rfl, fun _ => rfl, rfl, fun _ => rfl⟩

theorem Kept.trans {middle : Host} (h : Kept file free before middle)
    (h' : Kept file free middle after) : Kept file free before after :=
  ⟨fun name => (h'.access_eq name).trans (h.access_eq name),
    fun hn => (h'.contents_eq hn).trans (h.contents_eq hn), h'.size_eq.trans h.size_eq,
    fun hi => (h'.byte_eq hi).trans (h.byte_eq hi)⟩

theorem Kept.mono {free' : Nat → Prop} (h : Kept file free before after)
    (hle : ∀ i, free i → free' i) : Kept file free' before after :=
  ⟨h.access_eq, h.contents_eq, h.size_eq, fun hi => h.byte_eq fun hf => hi (hle _ hf)⟩

theorem Kept.contents_self (h : Kept file (fun _ => False) before after) :
    after.contents file = before.contents file :=
  ext_byteAt h.size_eq fun _ _ => h.byte_eq id

theorem isSome_find? : (host.find? file).isSome ↔ (host.access? file).isSome := by
  rw [access?, Option.isSome_map]

/-- A file that is not empty is there. -/
theorem isSome_find?_of_pos (h : 0 < (host.contents file).size) : (host.find? file).isSome := by
  unfold contents at h
  cases hf : host.find? file with
  | some found => rfl
  | none =>
    rw [hf] at h
    cases h

theorem Kept.isSome_find? (h : Kept file free before after) {name : String} :
    (after.find? name).isSome ↔ (before.find? name).isSome := by
  rw [Host.isSome_find?, h.access_eq, ← Host.isSome_find?]

@[simp] theorem access?_writeAt (host : Host) (name : String) (offset : Nat) (data : ByteArray)
    (other : String) : (host.writeAt name offset data).access? other = host.access? other := by
  unfold access? find? writeAt
  rw [find?_changeContents, Option.map_map]
  congr 1
  funext found
  simp only [Function.comp_apply]
  split
  · rfl
  · rfl

/-- A write inside a file changes no bytes but those written over. -/
theorem kept_writeAt {offset : Nat} {data : ByteArray} (hfile : (host.find? file).isSome)
    (hle : offset + data.size ≤ (host.contents file).size)
    (hfree : ∀ i, offset ≤ i → i < offset + data.size → free i) :
    Kept file free host (host.writeAt file offset data) where
  access_eq name := access?_writeAt ..
  contents_eq hn := contents_writeAt_of_ne offset data hn
  size_eq := by
    rw [contents_writeAt_self offset data hfile, size_overwrite]
    split
    · rfl
    · omega
  byte_eq hi := by
    rw [contents_writeAt_self offset data hfile, byteAt_overwrite, if_neg]
    exact fun hin => hi (hfree _ hin.1 hin.2)

private theorem changeContents_changeContents (name : String) (change change' : ByteArray → ByteArray)
    (files : List File) :
    changeContents name change' (changeContents name change files) =
      changeContents name (change' ∘ change) files := by
  induction files with
  | nil => rfl
  | cons found rest ih =>
    obtain ⟨other, contents, access⟩ := found
    by_cases h : other = name
    · simp only [changeContents, if_pos h, Function.comp_apply]
    · simp only [changeContents, if_neg h, ih]

/-- No write makes a file shorter. -/
theorem size_le_contents_writeAt (host : Host) (name : String) (offset : Nat) (data : ByteArray) :
    (host.contents name).size ≤ ((host.writeAt name offset data).contents name).size := by
  cases hf : host.find? name with
  | none => simp [contents, hf]
  | some found =>
    rw [contents_writeAt_self offset data (by rw [hf]; rfl), size_overwrite]
    split
    · exact Nat.le_refl _
    · exact Nat.le_max_left ..

/-- A write of nothing changes nothing. -/
theorem writeAt_of_size_eq_zero {data : ByteArray} (h : data.size = 0) (host : Host) (name : String)
    (offset : Nat) : host.writeAt name offset data = host := by
  have hsame : (overwrite · offset data) = id := by
    funext contents
    refine ext_byteAt (by rw [size_overwrite, if_pos h, id]) fun i _ => ?_
    rw [byteAt_overwrite, if_neg (by omega), id]
  have hfiles (files : List File) : changeContents name id files = files := by
    induction files with
    | nil => rfl
    | cons found rest ih =>
      obtain ⟨other, contents, access⟩ := found
      rw [changeContents, ih, id, ite_self]
  rw [writeAt, hsame, hfiles]

theorem find?_eq_some_name {found : File} (h : host.find? file = some found) : found.name = file := by
  simpa using List.find?_some h

/-- A file that is given contents has them, and grants the access that it did. -/
theorem find?_replace_self (host : Host) (name : String) (data : ByteArray) :
    (host.replace name data).find? name =
      some ⟨name, data, ((host.access? name).getD .readWrite).renewed⟩ := by
  let made : File := ⟨name, data, .readWrite⟩
  have hnew : ((host.files.filter fun found => found.name ≠ name) ++ [made]).find?
      (fun found => found.name = name) = some made := by
    have hnone : (host.files.filter fun found => found.name ≠ name).find?
        (fun found => found.name = name) = none := by
      simp
    rw [List.find?_append, hnone]
    simp [made]
  unfold access? replace lookUp
  cases hf : host.find? name with
  | none => exact hnew
  | some found =>
    have hname := find?_eq_some_name hf
    by_cases ha : found.access = .removed
    · simp only [ha, if_true, Option.map_some, Option.getD_some]
      exact hnew
    · have hrenewed : found.access.renewed = found.access := by
        cases hc : found.access <;> first | rfl | exact absurd hc ha
      unfold find? at hf
      simp only [ha, if_false, find?]
      rw [find?_changeContents, hf]
      simp [hname, hrenewed]

theorem contents_replace_self (host : Host) (name : String) (data : ByteArray) :
    (host.replace name data).contents name = data := by
  simp only [contents, find?_replace_self]

/-- A name that no file has is free for a new one. -/
theorem checkCreatable_of_absent {name : String} (h : host.find? name = none)
    (hname : name.contains '/' = false) : host.checkCreatable name = .ok () := by
  simp [checkCreatable, lookUp, h, hname]

/-- A file that was created can be read and written. -/
theorem access?_replace_self {name : String} (h : host.checkCreatable name = .ok ())
    (data : ByteArray) : (host.replace name data).access? name = some .readWrite := by
  have hnew : (host.replace name data).access? name =
      some ((host.access? name).getD .readWrite).renewed := by
    rw [access?, find?_replace_self, Option.map_some]
  rw [hnew]
  unfold checkCreatable lookUp at h
  unfold access?
  cases hf : host.find? name with
  | none => rfl
  | some found => cases ha : found.access <;> simp_all [Access.renewed]

private theorem changeContents_append {name : String} {files : List File}
    (h : ∀ file ∈ files, file.name ≠ name) (change : ByteArray → ByteArray) (data : ByteArray)
    (access : Access) :
    changeContents name change (files ++ [⟨name, data, access⟩]) =
      files ++ [⟨name, change data, access⟩] := by
  induction files with
  | nil => simp [changeContents]
  | cons file rest ih =>
    obtain ⟨other, contents, access'⟩ := file
    have hne : other ≠ name := h _ List.mem_cons_self
    simp only [List.cons_append, changeContents, if_neg hne]
    rw [ih fun file hfile => h file (List.mem_cons_of_mem _ hfile)]

/-- Emptying a file and giving it a size makes it that many zeros. -/
theorem resize_replace_empty (host : Host) (name : String) (size : Nat) :
    (host.replace name .empty).resize name size = host.replace name (zeros size) := by
  have hzeros : slice ByteArray.empty 0 size ++ zeros (size - ByteArray.empty.size) = zeros size := by
    refine ext_byteAt ?_ fun i _ => ?_
    · simp [size_slice]
    · rw [byteAt_append, byteAt_zeros, byteAt_zeros, byteAt_slice]
      split <;> simp [byteAt]
  unfold resize replace
  cases host.lookUp name with
  | ok found =>
    simp only
    rw [changeContents_changeContents]
    congr 2
    funext contents
    exact hzeros
  | error e =>
    simp only
    rw [changeContents_append (by simp), hzeros]

theorem checkWritable_of_access? {name : String} (h : host.access? name = some .readWrite) :
    host.checkWritable name = .ok () := by
  obtain ⟨found, hf, ha⟩ := Option.map_eq_some_iff.mp h
  simp [checkWritable, lookUp, hf, ha]

theorem checkReadable_of_access? {name : String} (h : host.access? name = some .readWrite) :
    host.checkReadable name = .ok () := by
  obtain ⟨found, hf, ha⟩ := Option.map_eq_some_iff.mp h
  simp [checkReadable, lookUp, hf, ha]

/-- Whether a file can be opened is known from the access that it grants. -/
theorem checkReadable_congr {host' : Host} {file' : String}
    (h : host'.access? file' = host.access? file) :
    host'.checkReadable file' = host.checkReadable file := by
  unfold access? at h
  unfold checkReadable lookUp
  cases hf : host.find? file with
  | none => cases hf' : host'.find? file' <;> simp_all
  | some found =>
    cases hf' : host'.find? file' with
    | none => simp_all
    | some found' => cases ha : found.access <;> simp_all

theorem checkWritable_congr {host' : Host} {file' : String}
    (h : host'.access? file' = host.access? file) :
    host'.checkWritable file' = host.checkWritable file := by
  unfold access? at h
  unfold checkWritable lookUp
  cases hf : host.find? file with
  | none => cases hf' : host'.find? file' <;> simp_all
  | some found =>
    cases hf' : host'.find? file' with
    | none => simp_all
    | some found' => cases ha : found.access <;> simp_all

theorem kept_warn (host : Host) (warning : Warning) : Kept file free host (host.warn warning) :=
  ⟨fun _ => rfl, fun _ => rfl, rfl, fun _ => rfl⟩

end Host

namespace Storage

variable {storage : Storage} {host after : Host} {offset len : Nat}

/-- Where the host never fails, a storage on an open file is known from its size. -/
theorem ofFile_eq (host : Host) (file : String) (backing : Backing) (readOnly : Bool) :
    ofFile host file backing readOnly =
      .ok (.ofSize file (host.contents file).size backing readOnly) := by
  unfold ofFile
  simp only [Medium.serve_reliable]
  change (if _ then _ else _) = _
  split <;> rfl

/-- A file that can be read and written is opened as it is asked for. -/
theorem openFile_of_access? {file : String} (h : host.access? file = some .readWrite)
    (backing : Backing) (readOnly : Bool) :
    Storage.openFile host file backing readOnly =
      .ok (.ofSize file (host.contents file).size backing readOnly) := by
  cases readOnly with
  | true =>
    simp only [Storage.openFile, if_true, Host.checkReadable_of_access? h]
    exact ofFile_eq host file backing true
  | false =>
    simp only [Storage.openFile, Host.checkWritable_of_access? h, Host.checkReadable_of_access? h]
    exact ofFile_eq host file backing false

/-- The file of the storage has as many bytes as when it was opened. -/
structure Backed (storage : Storage) (host : Host) : Prop where
  isSome_find? : (host.find? storage.file).isSome
  size_le : storage.size ≤ (host.contents storage.file).size

theorem Backed.kept {free : Nat → Prop} (h : storage.Backed host)
    (hk : Host.Kept storage.file free host after) : storage.Backed after :=
  ⟨hk.isSome_find?.mpr h.isSome_find?, by rw [hk.size_eq]; exact h.size_le⟩

theorem Backed.read_eq (h : storage.Backed host) (hle : offset + len ≤ storage.size) :
    storage.read host offset len = .ok (slice (host.contents storage.file) offset len) :=
  read_eq_ok_iff.mpr ⟨hle, .inr (Nat.le_trans hle h.size_le), rfl⟩

/-- What is read is known from the size of the file and from the bytes that are asked for. -/
theorem read_congr {host' : Host}
    (hsize : (host'.contents storage.file).size = (host.contents storage.file).size)
    (hslice : slice (host'.contents storage.file) offset len =
      slice (host.contents storage.file) offset len) :
    storage.read host' offset len = storage.read host offset len := by
  unfold read checkPresent
  rw [hsize, hslice]

theorem Backed.checkPresent_eq (h : storage.Backed host) (hle : offset + len ≤ storage.size) :
    storage.checkPresent host offset len = .ok () :=
  checkPresent_eq_ok_iff.mpr (.inr (Nat.le_trans hle h.size_le))

/-- The bytes of a mapping before `stop` are still in the file. A descriptor does not care. -/
def Reaches (storage : Storage) (host : Host) (stop : Nat) : Prop :=
  storage.mapped = true → stop ≤ (host.contents storage.file).size

theorem Backed.reaches {stop : Nat} (h : storage.Backed host) (hle : stop ≤ storage.size) :
    storage.Reaches host stop := fun _ => Nat.le_trans hle h.size_le

theorem Reaches.mono {stop stop' : Nat} (h : storage.Reaches host stop) (hle : stop' ≤ stop) :
    storage.Reaches host stop' := fun hm => Nat.le_trans hle (h hm)

theorem Reaches.writeAt {stop : Nat} (h : storage.Reaches host stop) (offset : Nat)
    (data : ByteArray) : storage.Reaches (host.writeAt storage.file offset data) stop := fun hm =>
  Nat.le_trans (h hm) (Host.size_le_contents_writeAt ..)

/-- A write that the storage takes succeeds, unless the host breaks it off. -/
theorem run_write_cases [Medium] {data : ByteArray} (hw : storage.readOnly = false)
    (hle : offset + data.size ≤ storage.size)
    (hreach : storage.Reaches host (offset + data.size)) :
    (storage.write offset data).run host = .ok () (host.writeAt storage.file offset data) ∨
      ∃ e after, e.IsOutage ∧ storage.Broken host offset data after ∧
        (storage.write offset data).run host = .error e after := by
  cases hm : storage.mapped with
  | true =>
    have htakes : storage.Takes host offset data := by
      rw [Takes, if_pos hm]
      exact .inr (hreach hm)
    exact .inl (run_write_eq_ok_iff.mpr ⟨hw, hle, htakes, rfl⟩)
  | false =>
    cases hfault : Medium.write host storage.file offset data with
    | none =>
      have htakes : storage.Takes host offset data := by
        rw [Takes, if_neg (by rw [hm]; exact Bool.false_ne_true)]
        exact hfault
      exact .inl (run_write_eq_ok_iff.mpr ⟨hw, hle, htakes, rfl⟩)
    | some fault =>
      exact .inr ⟨_, _, DiskError.isOutage_medium _, ⟨hm, hle, fault, hfault, rfl⟩,
        run_write_of_fault hm hw hle hfault⟩

theorem Broken.not_serves [medium : Medium] {data : ByteArray}
    (h : storage.Broken host offset data after) : ¬ medium.Serves storage.file := by
  obtain ⟨-, -, fault, hfault, -⟩ := h
  intro hserves
  rw [hserves.write] at hfault
  cases hfault

theorem not_broken {data : ByteArray} : ¬ storage.Broken host offset data after := fun h =>
  h.not_serves (Medium.serves_reliable _)

/-- Where the host never fails, a write succeeds if the storage takes it. -/
theorem run_write_of_le {data : ByteArray} (hw : storage.readOnly = false)
    (hle : offset + data.size ≤ storage.size)
    (hreach : storage.Reaches host (offset + data.size)) :
    (storage.write offset data).run host = .ok () (host.writeAt storage.file offset data) :=
  (run_write_cases hw hle hreach).resolve_right fun ⟨_, _, _, hbroken, _⟩ => not_broken hbroken

theorem Backed.run_write {data : ByteArray} (h : storage.Backed host)
    (hw : storage.readOnly = false) (hle : offset + data.size ≤ storage.size) :
    (storage.write offset data).run host = .ok () (host.writeAt storage.file offset data) :=
  run_write_of_le hw hle (h.reaches hle)

theorem sync_of_serves [medium : Medium] (h : medium.Serves storage.file) (host : Host) :
    storage.sync host = .ok () := by
  unfold sync Medium.serve
  rw [h.refuse, ite_self]

@[simp] theorem sync_eq (storage : Storage) (host : Host) : storage.sync host = .ok () :=
  sync_of_serves (Medium.serves_reliable _) host

theorem run_write_of_readOnly [Medium] (hro : storage.readOnly = true) (offset : Nat)
    (data : ByteArray) : (storage.write offset data).run host = .error .readOnly host := by
  have hcheck : storage.checkWrite offset data.size = .error .readOnly := if_pos hro
  simp [write, EStateM.run, bind, EStateM.bind, Action.ofExcept, hcheck]

theorem Backed.kept_writeAt {data : ByteArray} {free : Nat → Prop} (h : storage.Backed host)
    (hle : offset + data.size ≤ storage.size)
    (hfree : ∀ i, offset ≤ i → i < offset + data.size → free i) :
    Host.Kept storage.file free host (host.writeAt storage.file offset data) :=
  Host.kept_writeAt h.isSome_find? (Nat.le_trans hle h.size_le) hfree

/-- Where the host tears no write, one that was broken off has changed nothing. -/
theorem Broken.eq [medium : Medium] {data : ByteArray} (h : storage.Broken host offset data after)
    (hm : medium.Untorn) : after = host := by
  obtain ⟨-, -, fault, hfault, rfl⟩ := h
  refine Host.writeAt_of_size_eq_zero ?_ ..
  rw [size_slice, hm hfault]
  omega

theorem Broken.kept [Medium] {data : ByteArray} {free : Nat → Prop}
    (h : storage.Broken host offset data after) (hs : storage.Backed host)
    (hfree : ∀ i, offset ≤ i → i < offset + data.size → free i) :
    Host.Kept storage.file free host after := by
  obtain ⟨-, hle, fault, -, rfl⟩ := h
  have hpart : (slice data 0 fault.written).size ≤ data.size := by
    rw [size_slice]
    omega
  exact hs.kept_writeAt (by omega) fun i hlo hhi => hfree i hlo (by omega)

theorem Backed.contents_writeAt (h : storage.Backed host) (data : ByteArray) :
    (host.writeAt storage.file offset data).contents storage.file =
      overwrite (host.contents storage.file) offset data :=
  Host.contents_writeAt_self offset data h.isSome_find?

end Storage

end Diskette
