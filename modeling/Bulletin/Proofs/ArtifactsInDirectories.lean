import Bulletin.Proofs.ArtifactHistories

/-!
# Artifacts in a directory and artifacts in memory

A directory is called like a store in memory and should give the same answers. It does not always:
an artifact is first written under a temporary name in the same directory, and another artifact may
have this name. What stood there is overwritten and then moved away. So an artifact is *displaced*
by every writing under the name of which its own is the temporary name.

This is all that can go wrong. A directory holds what a store in memory holds, but for the displaced
artifacts, and so the two stores give the same answers exactly as long as nobody asks for one of
these.

* `DirectoryStore.exists_follows` — the files after some calls
* `answer_alike_iff` — one call
* `stores_agree_iff`
* `displaced_artifact_is_lost` — an artifact that is not found again
-/

namespace Bulletin

open DirectoryStore (temporaryName)

/-! ## Names -/

/-- A name that may be used, and is so short that its temporary name can be used, too. -/
def Artifact.ShortName (name : String) : Prop :=
  Artifact.validName name = true ∧ name.utf8ByteSize ≤ 250

instance (name : String) : Decidable (Artifact.ShortName name) :=
  inferInstanceAs (Decidable (_ ∧ _))

theorem utf8ByteSize_temporaryName (name : String) :
    (temporaryName name).utf8ByteSize = name.utf8ByteSize + 5 := by
  have hfirst : ".".utf8ByteSize = 1 := by decide
  have hlast : ".tmp".utf8ByteSize = 4 := by decide
  unfold DirectoryStore.temporaryName
  rw [String.utf8ByteSize_append, String.utf8ByteSize_append, hfirst, hlast]
  omega

theorem temporaryName_ne (name : String) : temporaryName name ≠ name := by
  intro h
  have hsize := utf8ByteSize_temporaryName name
  rw [h] at hsize
  omega

theorem validName_temporaryName {name : String} (h : Artifact.validName name = true) :
    Artifact.validName (temporaryName name) = true := by
  have hne : ∀ short : String, short.utf8ByteSize < 5 → temporaryName name ≠ short := by
    intro short hshort heq
    have hsize := utf8ByteSize_temporaryName name
    rw [heq] at hsize
    omega
  have hchars : (temporaryName name).toList = '.' :: (name.toList ++ ".tmp".toList) := by
    simp [DirectoryStore.temporaryName]
  unfold Artifact.validName at h ⊢
  simp only [Bool.and_eq_true] at h
  rw [hchars]
  simp [hne "" (by decide), hne "." (by decide), hne ".." (by decide), h.2]

/-! ## Histories -/

/-- Whether a call writes under the name of which another one is the temporary name. -/
def StoreCall.Displaces (name : String) : StoreCall → Prop
  | put other _ => temporaryName other = name
  | get _ | contains _ | delete _ => False

/-- A name was used as a temporary name, and was neither written nor deleted since. -/
def Displaced (name : String) (calls : List StoreCall) : Prop :=
  Since (StoreCall.Displaces name) (StoreCall.Touches name) calls

/-- An artifact was written under a name and not deleted, but the name was used as a temporary
name afterwards. -/
def Lost (name : String) (calls : List StoreCall) : Prop :=
  (∃ bytes, Stands name bytes calls) ∧ Displaced name calls

theorem displaced_concat {name : String} {calls : List StoreCall} {call : StoreCall} :
    Displaced name (calls ++ [call]) ↔
      call.Displaces name ∨ Displaced name calls ∧ ¬ call.Touches name := since_concat

/-! ## The directory -/

namespace DirectoryStore

variable {store : DirectoryStore} {path name : String} {bytes : ByteArray} {calls : List StoreCall}

theorem checkFile_of_valid {file : String} (hname : Artifact.validName name = true)
    (hfile : file.utf8ByteSize ≤ 255) : checkFile name file = .ok () := by
  have hlong : ¬ longestName < file.utf8ByteSize := Nat.not_lt.mpr hfile
  simp [checkFile, Artifact.checkName, hname, hlong]

/-- The files after a writing. -/
def filesWith (files : Fields ByteArray) (name : String) (bytes : ByteArray) : Fields ByteArray :=
  rename (files.insert (temporaryName name) bytes) (temporaryName name) name

/-- The new file is there, and nothing under the temporary name. -/
theorem get?_filesWith (files : Fields ByteArray) (name other : String) (bytes : ByteArray) :
    (filesWith files name bytes).get? other = if name = other then some bytes
      else if temporaryName name = other then none else files.get? other := by
  have hwritten : (files.insert (temporaryName name) bytes).get? (temporaryName name)
      = some bytes := by
    rw [Fields.get?_insert, if_pos rfl]
  unfold filesWith rename
  rw [hwritten]
  show (((files.insert _ bytes).erase _).insert name bytes).get? other = _
  rw [Fields.get?_insert, Fields.get?_erase, Fields.get?_insert]
  by_cases hother : temporaryName name = other <;> simp [hother]

theorem get?_erase_of_isSome (files : Fields ByteArray) (name other : String) :
    (if (files.get? name).isSome then files.erase name else files).get? other
      = if name = other then none else files.get? other := by
  by_cases hheld : (files.get? name).isSome = true
  · rw [if_pos hheld, Fields.get?_erase]
  · rw [if_neg hheld]
    by_cases hother : name = other
    · subst hother
      simpa using hheld
    · simp [hother]

section

variable (h : Artifact.ShortName name)
include h

theorem put_of_short : store.put name bytes
    = (.ok (joinPath store.path name), ⟨store.path, filesWith store.files name bytes⟩) := by
  have htemporary : (temporaryName name).utf8ByteSize ≤ 255 := by
    have hshort := h.2
    rw [utf8ByteSize_temporaryName]
    omega
  simp only [put, checkFile_of_valid h.1 htemporary, filesWith]

theorem get_of_short :
    store.get name = (store.files.get? name).elim (.error (.notFound name)) .ok := by
  unfold get
  rw [checkFile_of_valid h.1 (h.2.trans (by decide))]
  cases store.files.get? name <;> rfl

theorem contains_of_short : store.contains name = .ok (store.files.get? name).isSome := by
  unfold contains
  rw [checkFile_of_valid h.1 (h.2.trans (by decide))]
  rfl

theorem delete_of_short : store.delete name = (.ok (store.files.get? name).isSome, { store with
    files := if (store.files.get? name).isSome then store.files.erase name else store.files }) := by
  unfold delete
  rw [checkFile_of_valid h.1 (h.2.trans (by decide))]
  show (if (store.files.get? name).isSome = true then _ else _) = _
  split <;> simp_all

end

/-- The files of a directory are those of the calls that it was given. -/
structure Follows (store : DirectoryStore) (path : String) (calls : List StoreCall) : Prop where
  after : (ArtifactStore.directory ⟨path, ∅⟩).after calls = .directory store
  files : ∀ name bytes, store.files.get? name = some bytes ↔
    Stands name bytes calls ∧ ¬ Displaced name calls

theorem follows_nil (path : String) : Follows ⟨path, ∅⟩ path [] :=
  ⟨rfl, fun _ _ => iff_of_false nofun fun h => not_stands_nil h.1⟩

namespace Follows

variable (h : store.Follows path calls)
include h

/-- A directory goes on following, given what one call does to its files. -/
theorem of_answer {store' : DirectoryStore} {call : StoreCall} (answer : StoreAnswer)
    (hanswer : (ArtifactStore.directory store).answer call = (answer, .directory store'))
    (hfiles : ∀ name bytes, store'.files.get? name = some bytes ↔
      Stands name bytes (calls ++ [call]) ∧ ¬ Displaced name (calls ++ [call])) :
    store'.Follows path (calls ++ [call]) :=
  ⟨by rw [ArtifactStore.after_concat, h.after, hanswer], hfiles⟩

theorem put (hname : Artifact.ShortName name) (bytes : ByteArray) :
    ∃ store', Follows store' path (calls ++ [.put name bytes]) := by
  refine ⟨⟨store.path, filesWith store.files name bytes⟩,
    h.of_answer (.place (.ok (joinPath store.path name))) ?_ ?_⟩
  · simp [ArtifactStore.answer, ArtifactStore.put, put_of_short hname]
  · intro other content
    rw [get?_filesWith, stands_concat, displaced_concat]
    by_cases hother : name = other
    · -- a name is not its own temporary name
      subst hother
      simp [StoreCall.Touches, StoreCall.Displaces, hname.1, temporaryName_ne]
    · by_cases htemporary : temporaryName name = other
      · simp [StoreCall.Displaces, hother, htemporary]
      · simp [StoreCall.Touches, StoreCall.Displaces, hother, htemporary, h.files]

theorem delete (hname : Artifact.ShortName name) :
    ∃ store', Follows store' path (calls ++ [.delete name]) := by
  refine ⟨{ store with
    files := if (store.files.get? name).isSome then store.files.erase name else store.files },
    h.of_answer (.truth (.ok (store.files.get? name).isSome)) ?_ ?_⟩
  · simp [ArtifactStore.answer, ArtifactStore.delete, delete_of_short hname]
  · intro other content
    rw [get?_erase_of_isSome, stands_concat, displaced_concat]
    by_cases hother : name = other
    · simp [StoreCall.Touches, hother]
    · simp [StoreCall.Touches, StoreCall.Displaces, hother, h.files]

/-- One call more. -/
theorem concat {call : StoreCall} (hname : Artifact.ShortName call.name) :
    ∃ store', Follows store' path (calls ++ [call]) := by
  cases call with
  | put name bytes => exact h.put hname bytes
  | get name | contains name =>
    refine ⟨store, h.of_answer _ rfl fun other content => ?_⟩
    simp [stands_concat, displaced_concat, StoreCall.Touches, StoreCall.Displaces, h.files]
  | delete name => exact h.delete hname

end Follows

/-- An empty directory follows whatever calls it is given. -/
theorem exists_follows (path : String) {calls : List StoreCall}
    (h : ∀ call ∈ calls, Artifact.ShortName call.name) : ∃ store, Follows store path calls := by
  induction calls using List.reverseRecOn with
  | nil => exact ⟨_, follows_nil path⟩
  | append_singleton calls call ih =>
    obtain ⟨hcalls, hcall⟩ := List.forall_mem_append.mp h
    obtain ⟨store, hstore⟩ := ih hcalls
    exact hstore.concat (hcall call (List.mem_singleton.mpr rfl))

end DirectoryStore

/-! ## Two stores -/

/-- An answer without the location of an artifact: every store has locations of its own. -/
def StoreAnswer.withoutPlace : StoreAnswer → StoreAnswer
  | place (.ok _) => place (.ok "")
  | answer => answer

section

variable {path name : String} {calls : List StoreCall} {memory : MemoryStore}
  {directory : DirectoryStore}

theorem files_of_displaced (hdirectory : directory.Follows path calls) (h : Displaced name calls) :
    directory.files.get? name = none := by
  refine Option.eq_none_iff_forall_ne_some.mpr fun bytes hheld => ?_
  exact ((hdirectory.files name bytes).mp hheld).2 h

theorem files_of_not_displaced (hmemory : memory.Follows calls)
    (hdirectory : directory.Follows path calls) (h : ¬ Displaced name calls) :
    directory.files.get? name = memory.contents.get? name := by
  refine Option.ext fun bytes => ?_
  rw [hdirectory.files, hmemory.contents, and_iff_left h]

/-- What stands under a name is found in the directory, unless it is lost. -/
theorem isSome_files_iff (hmemory : memory.Follows calls)
    (hdirectory : directory.Follows path calls) :
    (directory.files.get? name).isSome = (memory.contents.get? name).isSome ↔
      ¬ Lost name calls := by
  have hstands :
      (∃ bytes, Stands name bytes calls) ↔ (memory.contents.get? name).isSome = true := by
    simp only [Option.isSome_iff_exists, hmemory.contents]
  unfold Lost
  rw [hstands]
  by_cases hdisplaced : Displaced name calls
  · rw [files_of_displaced hdirectory hdisplaced]
    simp [hdisplaced]
  · rw [files_of_not_displaced hmemory hdirectory hdisplaced]
    simp [hdisplaced]

theorem files_iff (hmemory : memory.Follows calls) (hdirectory : directory.Follows path calls) :
    directory.files.get? name = memory.contents.get? name ↔ ¬ Lost name calls := by
  rw [← isSome_files_iff hmemory hdirectory]
  constructor
  · exact congrArg Option.isSome
  · intro hsame
    by_cases hdisplaced : Displaced name calls
    · rw [files_of_displaced hdirectory hdisplaced] at hsame ⊢
      cases hheld : memory.contents.get? name with
      | none => rfl
      | some bytes => rw [hheld] at hsame; cases hsame
    · exact files_of_not_displaced hmemory hdirectory hdisplaced

/-- The two stores answer a call alike, unless it asks for an artifact that is lost. -/
theorem answer_alike_iff (hmemory : memory.Follows calls)
    (hdirectory : directory.Follows path calls) {call : StoreCall}
    (hname : Artifact.ShortName call.name) :
    ((ArtifactStore.directory directory).answer call).1.withoutPlace
        = ((ArtifactStore.memory memory).answer call).1.withoutPlace ↔
      (call.Asks → ¬ Lost call.name calls) := by
  cases call with
  | put name bytes =>
    change Artifact.ShortName name at hname
    obtain ⟨stats, hput, -, -⟩ := MemoryStore.put_of_valid hmemory.counts hname.1 bytes
    simp [ArtifactStore.answer, ArtifactStore.put, hput, DirectoryStore.put_of_short hname,
      StoreAnswer.withoutPlace, StoreCall.Asks]
  | get name =>
    change Artifact.ShortName name at hname
    simp only [ArtifactStore.answer, ArtifactStore.get, DirectoryStore.get_of_short hname,
      StoreAnswer.withoutPlace, StoreCall.Asks, StoreCall.name, true_imp_iff, MemoryStore.get,
      ← files_iff hmemory hdirectory, StoreAnswer.bytes.injEq]
    cases directory.files.get? name <;> cases memory.contents.get? name <;> simp
  | contains name =>
    change Artifact.ShortName name at hname
    simp only [ArtifactStore.answer, ArtifactStore.contains, DirectoryStore.contains_of_short hname,
      StoreAnswer.withoutPlace, StoreCall.Asks, StoreCall.name, true_imp_iff, MemoryStore.contains,
      Fields.contains, ← isSome_files_iff hmemory hdirectory, StoreAnswer.truth.injEq,
      Except.ok.injEq]
  | delete name =>
    change Artifact.ShortName name at hname
    have hdelete : (memory.delete name).1 = (memory.contents.get? name).isSome := by
      unfold MemoryStore.delete
      cases memory.contents.get? name <;> rfl
    simp only [ArtifactStore.answer, ArtifactStore.delete, DirectoryStore.delete_of_short hname,
      StoreAnswer.withoutPlace, StoreCall.Asks, StoreCall.name, true_imp_iff,
      ← isSome_files_iff hmemory hdirectory, ← hdelete, Prod.map, StoreAnswer.truth.injEq,
      Except.ok.injEq]

end

/-- The two stores answer some calls alike if and only if no call asks for an artifact that is lost
by then. -/
theorem answers_alike_iff (path : String) {calls : List StoreCall}
    (h : ∀ call ∈ calls, Artifact.ShortName call.name) :
    ((ArtifactStore.directory ⟨path, ∅⟩).answers calls).map StoreAnswer.withoutPlace
        = ((ArtifactStore.memory .empty).answers calls).map StoreAnswer.withoutPlace ↔
      ∀ before call, before ++ [call] <+: calls → call.Asks → ¬ Lost call.name before := by
  induction calls using List.reverseRecOn with
  | nil => simp [ArtifactStore.answers]
  | append_singleton calls call ih =>
    obtain ⟨hcalls, hcall⟩ := List.forall_mem_append.mp h
    obtain ⟨memory, hmemory⟩ := MemoryStore.exists_follows calls
    obtain ⟨directory, hdirectory⟩ := DirectoryStore.exists_follows path hcalls
    have hlast := answer_alike_iff hmemory hdirectory (hcall call (List.mem_singleton.mpr rfl))
    rw [ArtifactStore.answers_concat, ArtifactStore.answers_concat, hmemory.after,
      hdirectory.after, List.map_append, List.map_append]
    constructor
    · intro hsame before other hbegins
      obtain ⟨hbefore, hanswer⟩ := List.append_inj' hsame rfl
      rcases List.prefix_concat_iff.mp hbegins with heq | hbegins
      · obtain ⟨rfl, hother⟩ := List.append_inj' heq rfl
        obtain rfl := List.singleton_inj.mp hother
        exact hlast.mp (List.singleton_inj.mp hanswer)
      · exact (ih hcalls).mp hbefore before other hbegins
    · intro hfound
      have hbefore := (ih hcalls).mpr fun before other hbegins =>
        hfound before other (hbegins.trans (List.prefix_append _ _))
      have hanswer := hlast.mpr (hfound calls call (List.prefix_refl _))
      rw [hbefore, List.map_singleton, List.map_singleton, hanswer]

/-- What stands under another name after a writing. -/
theorem DirectoryStore.get_put (store : DirectoryStore) {name other : String} (bytes : ByteArray)
    (hname : Artifact.ShortName name) (hother : other ≠ name) :
    (store.put name bytes).2.get other
      = if temporaryName name = other then .error (.notFound other) else store.get other := by
  have hfiles := get?_filesWith store.files name other bytes
  rw [if_neg hother.symm] at hfiles
  rw [put_of_short hname]
  split
  · next htemporary =>
    rw [if_pos htemporary] at hfiles
    subst htemporary
    have hvalid := validName_temporaryName hname.1
    have hsize : (temporaryName name).utf8ByteSize ≤ 255 := by
      have := hname.2
      rw [utf8ByteSize_temporaryName]
      omega
    simp only [get, checkFile_of_valid hvalid hsize, hfiles]
  · next htemporary =>
    rw [if_neg htemporary] at hfiles
    simp only [get, hfiles]

/--
**Where a directory answers like a store in memory.** An empty directory and an empty store in
memory are given the same calls, whose names may be used and are not too long. Then:

* they give the same answers if and only if no call asks for an artifact that is lost by then, which
  is one that was written, and whose name was used as a temporary name afterwards;
* a writing into any directory leaves alone what stands under other names, but for its own temporary
  name, under which nothing is found after it.
-/
theorem stores_agree_iff (path : String) (calls : List StoreCall)
    (h : ∀ call ∈ calls, Artifact.ShortName call.name) :
    (((ArtifactStore.directory ⟨path, ∅⟩).answers calls).map StoreAnswer.withoutPlace
        = ((ArtifactStore.memory .empty).answers calls).map StoreAnswer.withoutPlace ↔
      ∀ before call, before ++ [call] <+: calls → call.Asks → ¬ Lost call.name before) ∧
    ∀ (directory : DirectoryStore) name bytes other, Artifact.ShortName name → other ≠ name →
      (directory.put name bytes).2.get other
        = if temporaryName name = other then .error (.notFound other) else directory.get other :=
  ⟨answers_alike_iff path h, fun directory _ bytes _ hname hother =>
    directory.get_put bytes hname hother⟩

/-- A name is used as a temporary name, and an artifact is written under it again: it is found. -/
theorem artifact_written_again_is_found :
    let calls : List StoreCall := [.put ".a.tmp" ⟨#[1]⟩, .put "a" ⟨#[2]⟩, .put ".a.tmp" ⟨#[3]⟩,
      .get ".a.tmp", .delete "a", .contains "a"]
    (∀ call ∈ calls, Artifact.ShortName call.name) ∧
      ((ArtifactStore.directory ⟨"out", ∅⟩).answers calls).map StoreAnswer.withoutPlace
        = ((ArtifactStore.memory .empty).answers calls).map StoreAnswer.withoutPlace ∧
      ∀ before call, before ++ [call] <+: calls → call.Asks → ¬ Lost call.name before := by
  intro calls
  have hnames : ∀ call ∈ calls, Artifact.ShortName call.name := by decide
  have halike : ((ArtifactStore.directory ⟨"out", ∅⟩).answers calls).map StoreAnswer.withoutPlace
      = ((ArtifactStore.memory .empty).answers calls).map StoreAnswer.withoutPlace := by rfl
  exact ⟨hnames, halike, (stores_agree_iff "out" calls hnames).1.mp halike⟩

/-- An artifact under the temporary name of another one is not found again. -/
theorem displaced_artifact_is_lost :
    ¬ ∀ (path : String) (calls : List StoreCall),
      (∀ call ∈ calls, Artifact.ShortName call.name) →
      ((ArtifactStore.directory ⟨path, ∅⟩).answers calls).map StoreAnswer.withoutPlace
        = ((ArtifactStore.memory .empty).answers calls).map StoreAnswer.withoutPlace := by
  intro hagree
  have hsame := hagree "out" [.put ".a.tmp" ⟨#[1]⟩, .put "a" ⟨#[2]⟩, .get ".a.tmp"] (by decide)
  have hdirectory : (ArtifactStore.directory ⟨"out", ∅⟩).answers
      [.put ".a.tmp" ⟨#[1]⟩, .put "a" ⟨#[2]⟩, .get ".a.tmp"]
      = [.place (.ok "out/.a.tmp"), .place (.ok "out/a"),
        .bytes (.error (.notFound ".a.tmp"))] := by
    rfl
  have hmemory : (ArtifactStore.memory .empty).answers
      [.put ".a.tmp" ⟨#[1]⟩, .put "a" ⟨#[2]⟩, .get ".a.tmp"]
      = [.place (.ok "memory://.a.tmp"), .place (.ok "memory://a"), .bytes (.ok ⟨#[1]⟩)] := by
    rfl
  rw [hdirectory, hmemory] at hsame
  simp [StoreAnswer.withoutPlace] at hsame

end Bulletin
