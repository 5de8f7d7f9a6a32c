import Bulletin.Artifact.Store
import Bulletin.Proofs.RepositoriesAgree
import Mathlib.Algebra.BigOperators.Group.List.Basic
import Mathlib.Data.List.Induction
import Mathlib.Data.String.Basic

/-!
# What a store of artifacts was told

A store of artifacts is called any number of times: to write, to read, to look, to delete. What it
holds under a name afterwards is told by the calls alone: the bytes of the last writing, unless the
name was deleted since. The store in memory also counts while it goes, and its counters never part
from its contents. They are words: a count that fits a word is held as it is, whatever came before,
and one that does not, for which no memory is large enough, as what is left of it.

Every statement about a history is proved call by call, from the front: what was true before the
last call, and what the last call does.

* `since_concat` — one call more
* `MemoryStore.Follows` — the contents and the counters of a store in memory, after some calls
* `MemoryStore.Follows.concat` — one call keeps them right
* `memory_store_history`
-/

namespace Bulletin

/-! ## Calls -/

/-- A call of a store of artifacts. -/
inductive StoreCall where
  | put (name : String) (bytes : ByteArray)
  | get (name : String)
  | contains (name : String)
  | delete (name : String)

namespace StoreCall

/-- The name that a call is about. -/
def name : StoreCall → String
  | put name _ | get name | contains name | delete name => name

/-- Whether a call asks what stands under a name. To delete is to ask, too: the answer tells whether
there was something. -/
def Asks : StoreCall → Prop
  | put _ _ => False
  | get _ | contains _ | delete _ => True

/-- Whether a call writes or deletes what stands under a name. -/
def Touches (name : String) : StoreCall → Prop
  | put other _ | delete other => other = name
  | get _ | contains _ => False

end StoreCall

/-- What a store answers: where an artifact was put, its bytes, or whether it is there. -/
inductive StoreAnswer where
  | place (result : Except ArtifactError String)
  | bytes (result : Except ArtifactError ByteArray)
  | truth (result : Except ArtifactError Bool)

/-- Whether an artifact was written. -/
def StoreAnswer.written : StoreAnswer → Bool
  | place (.ok _) => true
  | place (.error _) | bytes _ | truth _ => false

namespace ArtifactStore

/-- The answer to a call, and the store after it. -/
def answer (store : ArtifactStore) : StoreCall → StoreAnswer × ArtifactStore
  | .put name bytes => ((store.put name bytes).map .place id)
  | .get name => (.bytes (store.get name), store)
  | .contains name => (.truth (store.contains name), store)
  | .delete name => ((store.delete name).map .truth id)

/-- The store after some calls, one after the other. -/
def after (store : ArtifactStore) (calls : List StoreCall) : ArtifactStore :=
  calls.foldl (fun store call => (store.answer call).2) store

/-- The answers to some calls, one after the other. -/
def answers (store : ArtifactStore) : List StoreCall → List StoreAnswer
  | [] => []
  | call :: rest => (store.answer call).1 :: (store.answer call).2.answers rest

theorem after_concat (store : ArtifactStore) (calls : List StoreCall) (call : StoreCall) :
    store.after (calls ++ [call]) = ((store.after calls).answer call).2 := by
  simp [after]

theorem answers_concat (store : ArtifactStore) (calls : List StoreCall) (call : StoreCall) :
    store.answers (calls ++ [call])
      = store.answers calls ++ [((store.after calls).answer call).1] := by
  induction calls generalizing store with
  | nil => rfl
  | cons first rest ih => simp [answers, after, ih]

end ArtifactStore

/-! ## Histories -/

/-- Some call had the first property, and none had the second one since. -/
def Since {α : Type} (p q : α → Prop) (calls : List α) : Prop :=
  ∃ before call after, calls = before ++ call :: after ∧ p call ∧ ∀ later ∈ after, ¬ q later

theorem not_since_nil {α : Type} {p q : α → Prop} : ¬ Since p q [] := by
  rintro ⟨before, call, after, h, -, -⟩
  simp at h

/-- One call more: either it is the one, or it was before, and this is none that ends it. -/
theorem since_concat {α : Type} {p q : α → Prop} {calls : List α} {call : α} :
    Since p q (calls ++ [call]) ↔ p call ∨ Since p q calls ∧ ¬ q call := by
  constructor
  · rintro ⟨before, first, after, h, hp, hq⟩
    rcases List.eq_nil_or_concat' after with rfl | ⟨between, last, rfl⟩
    · obtain ⟨rfl, hlast⟩ := List.append_inj' h rfl
      obtain rfl := List.singleton_inj.mp hlast
      exact .inl hp
    · rw [← List.cons_append, ← List.append_assoc] at h
      obtain ⟨rfl, hlast⟩ := List.append_inj' h rfl
      obtain rfl := List.singleton_inj.mp hlast
      refine .inr ⟨⟨before, first, between, rfl, hp, fun later hl => hq later ?_⟩, hq call ?_⟩
      · exact List.mem_append_left _ hl
      · exact List.mem_append_right _ (List.mem_singleton.mpr rfl)
  · rintro (hp | ⟨⟨before, first, after, rfl, hp, hq⟩, hcall⟩)
    · exact ⟨calls, call, [], rfl, hp, by simp⟩
    · refine ⟨before, first, after ++ [call], by simp, hp, ?_⟩
      simpa [or_imp, forall_and] using ⟨hq, hcall⟩

/-- Under a name stand some bytes: the name may be used, they were written under it, and it was
neither written nor deleted since. -/
def Stands (name : String) (bytes : ByteArray) (calls : List StoreCall) : Prop :=
  Artifact.validName name = true ∧ Since (· = .put name bytes) (StoreCall.Touches name) calls

theorem not_stands_nil {name : String} {bytes : ByteArray} : ¬ Stands name bytes [] :=
  fun h => not_since_nil h.2

theorem stands_concat {name : String} {bytes : ByteArray} {calls : List StoreCall}
    {call : StoreCall} :
    Stands name bytes (calls ++ [call]) ↔
      Artifact.validName name = true ∧ call = .put name bytes ∨
        Stands name bytes calls ∧ ¬ call.Touches name := by
  unfold Stands
  rw [since_concat, and_or_left, and_assoc]

/-! ## Contents and their weights -/

namespace Fields

variable {α : Type} {fields : Fields α} {key other : String} {value : α}

theorem get?_erase : (fields.erase key).get? other
    = if key = other then none else fields.get? other := by
  refine Option.ext fun found => ?_
  rw [get?_eq_some_iff]
  by_cases h : key = other
  · simp [erase, h]
  · rw [if_neg h, get?_eq_some_iff]
    simp [erase, Ne.symm h]

theorem mem_keys : key ∈ fields.keys ↔ ∃ value, fields.get? key = some value := by
  simp [keys, get?_eq_some_iff]

/-- The sum of the weights of all values. -/
def total (weight : α → Nat) (fields : Fields α) : Nat := (fields.values.map weight).sum

/-- A new value counts, and the one that it replaces does not count any more. -/
theorem total_insert (weight : α → Nat) (fields : Fields α) (key : String) (value : α) :
    (fields.insert key value).total weight + ((fields.get? key).map weight).getD 0
      = fields.total weight + weight value := by
  obtain ⟨entries, hd⟩ := fields
  show ((putEntry key value entries).map Prod.snd |>.map weight).sum
    + ((lookupValue? key entries).map weight).getD 0 = (entries.map Prod.snd |>.map weight).sum
      + weight value
  clear hd
  induction entries with
  | nil => simp [putEntry, lookupValue?]
  | cons entry rest ih =>
    by_cases h : entry.1 = key
    · simp [putEntry, lookupValue?, h]
      omega
    · simp only [putEntry, lookupValue?, h, if_false, List.map_cons, List.sum_cons]
      omega

/-- A value that is taken out does not count any more. -/
theorem total_erase (weight : α → Nat) (h : fields.get? key = some value) :
    (fields.erase key).total weight + weight value = fields.total weight := by
  obtain ⟨entries, hd⟩ := fields
  change lookupValue? key entries = some value at h
  show ((entries.filter fun entry => entry.1 ≠ key).map Prod.snd |>.map weight).sum + weight value
    = (entries.map Prod.snd |>.map weight).sum
  induction entries with
  | nil => cases h
  | cons entry rest ih =>
    rw [List.map_cons, List.nodup_cons] at hd
    by_cases hk : entry.1 = key
    · -- no other entry has the key
      have hrest : rest.filter (fun entry => entry.1 ≠ key) = rest := by
        refine List.filter_eq_self.mpr fun other hother => decide_eq_true fun he => hd.1 ?_
        exact hk.trans he.symm ▸ List.mem_map_of_mem hother
      obtain rfl : entry.2 = value := by simpa [lookupValue?, hk] using h
      rw [List.filter_cons_of_neg (by simp [hk]), hrest]
      simp [Nat.add_comm]
    · have hrest := ih hd.2 (by simpa [lookupValue?, hk] using h)
      rw [List.filter_cons_of_pos (by simpa using hk)]
      simp only [List.map_cons, List.sum_cons]
      omega

theorem le_total (weight : α → Nat) (h : fields.get? key = some value) :
    weight value ≤ fields.total weight := by
  have := total_erase weight h
  omega

end Fields

/-! ## The store in memory -/

/-- Counters are those of some contents. -/
structure StoreStats.Count (stats : StoreStats) (contents : Fields ByteArray) : Prop where
  artifacts : stats.artifacts = .ofNat (contents.total fun _ => 1)
  bytes : stats.bytes = .ofNat (contents.total ByteArray.size)

namespace MemoryStore

variable {store : MemoryStore} {calls : List StoreCall} {name : String} {bytes : ByteArray}

theorem put_of_not_valid (h : Artifact.validName name = false) :
    store.put name bytes = (.error (.invalidName name), store) := by
  simp [put, Artifact.checkName, h]

/-- Writing under a name that may be used. -/
theorem put_of_valid (h : store.stats.Count store.contents)
    (hname : Artifact.validName name = true) (bytes : ByteArray) :
    ∃ stats : StoreStats, store.put name bytes
        = (.ok ("memory://" ++ name), ⟨store.contents.insert name bytes, stats⟩) ∧
      stats.writes = store.stats.writes + 1 ∧ stats.Count (store.contents.insert name bytes) := by
  have hcount := Fields.total_insert (fun _ => 1) store.contents name bytes
  have hsum := Fields.total_insert ByteArray.size store.contents name bytes
  unfold put
  simp only [Artifact.checkName, hname, if_true]
  cases hheld : store.contents.get? name with
  | some previous =>
    simp only [hheld, Option.map_some, Option.getD_some] at hcount hsum
    refine ⟨_, rfl, rfl, ?_, ?_⟩
    · show store.stats.artifacts = _
      rw [h.artifacts, Nat.add_right_cancel hcount]
    · show store.stats.bytes - UInt64.ofNat previous.size + UInt64.ofNat bytes.size = _
      have hwords := congrArg UInt64.ofNat hsum
      rw [UInt64.ofNat_add, UInt64.ofNat_add, ← h.bytes] at hwords
      grind
  | none =>
    simp only [hheld, Option.map_none, Option.getD_none, Nat.add_zero] at hcount hsum
    refine ⟨_, rfl, rfl, ?_, ?_⟩
    · show store.stats.artifacts + UInt64.ofNat 1 = _
      rw [h.artifacts, hcount, UInt64.ofNat_add]
    · show store.stats.bytes + UInt64.ofNat bytes.size = _
      rw [h.bytes, hsum, UInt64.ofNat_add]

/-- Deleting what is there. -/
theorem delete_of_held (h : store.stats.Count store.contents)
    (hheld : store.contents.get? name = some bytes) :
    ∃ stats : StoreStats, store.delete name = (true, ⟨store.contents.erase name, stats⟩) ∧
      stats.writes = store.stats.writes ∧ stats.Count (store.contents.erase name) := by
  have hcount := Fields.total_erase (fun _ => 1) hheld
  have hsum := Fields.total_erase ByteArray.size hheld
  unfold delete
  simp only [hheld]
  refine ⟨_, rfl, rfl, ?_, ?_⟩
  · show store.stats.artifacts - UInt64.ofNat 1 = _
    rw [h.artifacts, ← hcount, UInt64.ofNat_add, UInt64.add_sub_cancel]
  · show store.stats.bytes - UInt64.ofNat bytes.size = _
    rw [h.bytes, ← hsum, UInt64.ofNat_add, UInt64.add_sub_cancel]

theorem delete_of_none (h : store.contents.get? name = none) :
    store.delete name = (false, store) := by
  simp [delete, h]

/-- The contents and the counters of a store agree with the calls that it was given. -/
structure Follows (store : MemoryStore) (calls : List StoreCall) : Prop where
  after : (ArtifactStore.memory .empty).after calls = .memory store
  contents : ∀ name bytes, store.contents.get? name = some bytes ↔ Stands name bytes calls
  counts : store.stats.Count store.contents
  writes : store.stats.writes
    = .ofNat (((ArtifactStore.memory .empty).answers calls).countP StoreAnswer.written)

theorem follows_nil : Follows .empty [] :=
  ⟨rfl, fun _ _ => iff_of_false nofun not_stands_nil, ⟨rfl, rfl⟩, rfl⟩

namespace Follows

variable (h : store.Follows calls)
include h

theorem contents_eq_none :
    store.contents.get? name = none ↔ ∀ bytes, ¬ Stands name bytes calls := by
  simp only [Option.eq_none_iff_forall_ne_some, ne_eq, h.contents]

/-- A store goes on following, given what one call does to its contents and its counters. -/
theorem of_answer {store' : MemoryStore} {call : StoreCall} (answer : StoreAnswer)
    (hanswer : (ArtifactStore.memory store).answer call = (answer, .memory store'))
    (hcontents : ∀ name bytes, store'.contents.get? name = some bytes ↔
      Stands name bytes (calls ++ [call]))
    (hcounts : store'.stats.Count store'.contents)
    (hwrites : store'.stats.writes
      = store.stats.writes + .ofNat (if answer.written then 1 else 0)) :
    store'.Follows (calls ++ [call]) := by
  refine ⟨?_, hcontents, hcounts, ?_⟩
  · rw [ArtifactStore.after_concat, h.after, hanswer]
  · rw [ArtifactStore.answers_concat, h.after, hanswer, hwrites, h.writes, List.countP_append,
      List.countP_singleton, UInt64.ofNat_add]

/-- A call that leaves the store alone, if the same stands under every name after it. -/
theorem unchanged {call : StoreCall} (answer : StoreAnswer)
    (hanswer : (ArtifactStore.memory store).answer call = (answer, .memory store))
    (hwritten : answer.written = false)
    (hstands : ∀ name bytes, Stands name bytes (calls ++ [call]) ↔ Stands name bytes calls) :
    store.Follows (calls ++ [call]) :=
  h.of_answer answer hanswer (fun name bytes => by rw [hstands, h.contents]) h.counts
    (by simp [hwritten])

/-- Writing under a name that may be used. -/
theorem put (hname : Artifact.validName name = true) (bytes : ByteArray) :
    ∃ store', Follows store' (calls ++ [.put name bytes]) := by
  obtain ⟨stats, hput, hwrites, hcounts⟩ := put_of_valid h.counts hname bytes
  refine ⟨⟨store.contents.insert name bytes, stats⟩,
    h.of_answer (.place (.ok ("memory://" ++ name))) ?_ ?_ hcounts hwrites⟩
  · simp [ArtifactStore.answer, ArtifactStore.put, hput]
  · intro other content
    rw [Fields.get?_insert, stands_concat]
    by_cases hother : name = other
    · subst hother
      simp [StoreCall.Touches, hname]
    · simp [StoreCall.Touches, hother, h.contents]

/-- Writing under a name that may not be used. -/
theorem put_refused (hname : Artifact.validName name = false) (bytes : ByteArray) :
    store.Follows (calls ++ [.put name bytes]) := by
  refine h.unchanged (.place (.error (.invalidName name))) ?_ rfl ?_
  · simp [ArtifactStore.answer, ArtifactStore.put, put_of_not_valid hname]
  · intro other content
    rw [stands_concat]
    constructor
    · rintro (⟨hother, heq⟩ | ⟨hstands, -⟩)
      · cases heq
        simp [hname] at hother
      · exact hstands
    · intro hstands
      refine .inr ⟨hstands, fun hsame => ?_⟩
      have hother := hstands.1
      rw [← show name = other from hsame, hname] at hother
      cases hother

/-- Deleting, whether there is something or not. -/
theorem delete (name : String) : ∃ store', Follows store' (calls ++ [.delete name]) := by
  cases hheld : store.contents.get? name with
  | some previous =>
    obtain ⟨stats, hdelete, hwrites, hcounts⟩ := delete_of_held h.counts hheld
    refine ⟨⟨store.contents.erase name, stats⟩,
      h.of_answer (.truth (.ok true)) ?_ ?_ hcounts (hwrites.trans (UInt64.add_zero _).symm)⟩
    · simp [ArtifactStore.answer, ArtifactStore.delete, hdelete]
    · intro other content
      rw [Fields.get?_erase, stands_concat]
      by_cases hother : name = other
      · simp [StoreCall.Touches, hother]
      · simp [StoreCall.Touches, hother, h.contents]
  | none =>
    have hnone := h.contents_eq_none.mp hheld
    refine ⟨store, h.unchanged (.truth (.ok false)) ?_ rfl ?_⟩
    · simp [ArtifactStore.answer, ArtifactStore.delete, delete_of_none hheld]
    · intro other content
      rw [stands_concat]
      constructor
      · rintro (⟨-, heq⟩ | ⟨hstands, -⟩)
        · cases heq
        · exact hstands
      · intro hstands
        exact .inr ⟨hstands, fun hsame => hnone content (hsame ▸ hstands)⟩

/-- One call more. -/
theorem concat (call : StoreCall) : ∃ store', Follows store' (calls ++ [call]) := by
  cases call with
  | put name bytes =>
    cases hname : Artifact.validName name with
    | true => exact h.put hname bytes
    | false => exact ⟨store, h.put_refused hname bytes⟩
  | get name | contains name =>
    exact ⟨store, h.unchanged _ rfl rfl fun _ _ => by simp [stands_concat, StoreCall.Touches]⟩
  | delete name => exact h.delete name

end Follows

/-- A new store follows whatever calls it is given. -/
theorem exists_follows (calls : List StoreCall) : ∃ store, Follows store calls := by
  induction calls using List.reverseRecOn with
  | nil => exact ⟨.empty, follows_nil⟩
  | append_singleton calls call ih =>
    obtain ⟨store, h⟩ := ih
    exact h.concat call

/-! ## What can be seen of it -/

theorem get_eq_ok_iff : store.get name = .ok bytes ↔ store.contents.get? name = some bytes := by
  unfold get
  cases store.contents.get? name <;> simp

theorem contains_eq_true_iff :
    store.contains name = true ↔ ∃ bytes, store.contents.get? name = some bytes := by
  simp [contains, Fields.contains, Option.isSome_iff_exists]

theorem list_perm (store : MemoryStore) : store.list.Perm store.contents.keys :=
  List.mergeSort_perm _ _

/-- The list is sorted, and has no name twice. -/
theorem pairwise_list (store : MemoryStore) : store.list.Pairwise (· < ·) := by
  have hsorted : store.list.Pairwise fun a b => (compare a b != .gt) = true := by
    refine List.pairwise_mergeSort ?_ ?_ _
    · intro a b c hab hbc
      simp only [bne_iff_ne, ne_eq, compare_gt_iff_gt, not_lt] at hab hbc ⊢
      exact hab.trans hbc
    · intro a b
      simp only [Bool.or_eq_true, bne_iff_ne, ne_eq, compare_gt_iff_gt, not_lt]
      exact le_total a b
  have hnodup : store.list.Nodup := (list_perm store).nodup_iff.mpr store.contents.distinct
  refine (hsorted.and hnodup).imp fun {a b} ⟨hle, hne⟩ => ?_
  simp only [bne_iff_ne, ne_eq, compare_gt_iff_gt, not_lt] at hle
  exact lt_of_le_of_ne hle hne

/-- The size of the artifact under a name. -/
def sizeUnder (store : MemoryStore) (name : String) : Nat :=
  match store.get name with
  | .ok bytes => bytes.size
  | .error _ => 0

theorem total_size (store : MemoryStore) :
    store.contents.total ByteArray.size = (store.list.map store.sizeUnder).sum := by
  rw [((list_perm store).map _).sum_eq]
  unfold Fields.total Fields.values Fields.keys
  rw [List.map_map, List.map_map]
  refine congrArg List.sum (List.map_congr_left fun entry hentry => ?_)
  have hheld : store.get entry.1 = .ok entry.2 :=
    get_eq_ok_iff.mpr (Fields.get?_eq_some_iff.mpr hentry)
  simp only [Function.comp_apply, sizeUnder, hheld]

theorem total_one (store : MemoryStore) :
    (store.contents.total fun _ => 1) = store.list.length := by
  simp [(list_perm store).length_eq, Fields.total, Fields.values, Fields.keys, Function.comp_def]

/-- A counter holds a number: the number itself if it fits a word, and what is left of it if it
does not. -/
structure Holds (counter : UInt64) (n : Nat) : Prop where
  eq_word : counter = .ofNat n
  toNat_eq : n < UInt64.size → counter.toNat = n

theorem holds_ofNat (n : Nat) : Holds (.ofNat n) n := ⟨rfl, UInt64.toNat_ofNat_of_lt⟩

/-- What a store in memory shows tells of the calls that it was given. -/
structure TellsOf (store : MemoryStore) (calls : List StoreCall) : Prop where
  /-- reading finds the last bytes that were written, if they were not deleted -/
  get_ok : ∀ name bytes, store.get name = .ok bytes ↔ Stands name bytes calls
  /-- and nothing else -/
  get_error : ∀ name, (∀ bytes, ¬ Stands name bytes calls) →
    store.get name = .error (.notFound name)
  contains : ∀ name, store.contains name = true ↔ ∃ bytes, Stands name bytes calls
  /-- the names that can be read are listed, in order and each once -/
  mem_list : ∀ name, name ∈ store.list ↔ ∃ bytes, Stands name bytes calls
  sorted : store.list.Pairwise (· < ·)
  /-- the counters -/
  artifacts : Holds store.stats.artifacts store.list.length
  bytes : Holds store.stats.bytes (store.list.map store.sizeUnder).sum
  writes : Holds store.stats.writes
    (((ArtifactStore.memory .empty).answers calls).countP StoreAnswer.written)
  /-- what the next call may take off the counters was counted, and nothing goes below zero while
  the counts fit -/
  covered : ∀ name bytes, store.get name = .ok bytes →
    (bytes.size ≤ (store.list.map store.sizeUnder).sum ∧ 1 ≤ store.list.length) ∧
      ((store.list.map store.sizeUnder).sum < UInt64.size →
        bytes.size ≤ store.stats.bytes.toNat) ∧
      (store.list.length < UInt64.size → 1 ≤ store.stats.artifacts.toNat)
  /-- a writing is refused if the name may not be used, and then it changes nothing -/
  put : ∀ name bytes,
    if Artifact.validName name = true then ∃ path, (store.put name bytes).1 = .ok path
    else store.put name bytes = (.error (.invalidName name), store)

theorem Follows.holds_artifacts (h : store.Follows calls) :
    Holds store.stats.artifacts store.list.length := by
  rw [h.counts.artifacts, total_one]
  exact holds_ofNat _

theorem Follows.holds_bytes (h : store.Follows calls) :
    Holds store.stats.bytes (store.list.map store.sizeUnder).sum := by
  rw [h.counts.bytes, total_size]
  exact holds_ofNat _

theorem Follows.tellsOf (h : store.Follows calls) : store.TellsOf calls where
  get_ok name bytes := by rw [get_eq_ok_iff, h.contents]
  get_error name hnone := by simp [get, h.contents_eq_none.mpr hnone]
  contains name := by simp only [contains_eq_true_iff, h.contents]
  mem_list name := by simp only [(list_perm store).mem_iff, Fields.mem_keys, h.contents]
  sorted := pairwise_list store
  artifacts := h.holds_artifacts
  bytes := h.holds_bytes
  writes := h.writes ▸ holds_ofNat _
  covered name bytes hget := by
    have hheld := get_eq_ok_iff.mp hget
    have hsize := total_size store ▸ Fields.le_total ByteArray.size hheld
    have hone := total_one store ▸ Fields.le_total (fun _ => 1) hheld
    exact ⟨⟨hsize, hone⟩, fun hfits => hsize.trans_eq (h.holds_bytes.toNat_eq hfits).symm,
      fun hfits => hone.trans_eq (h.holds_artifacts.toNat_eq hfits).symm⟩
  put name bytes := by
    split
    · next hname =>
      obtain ⟨stats, hput, -, -⟩ := put_of_valid h.counts hname bytes
      exact ⟨_, congrArg Prod.fst hput⟩
    · next hname => exact put_of_not_valid (eq_false_of_ne_true hname)

end MemoryStore

/--
**The store in memory tells what it was told.** After any calls of a new store, whatever their names
and bytes: what can be read is what was written last and not deleted since, looking and listing
agree with reading, the counters are those of what can be read and of the writings that succeeded,
as far as words hold them, nothing that a call takes off a counter is more than was counted, and a
writing that is refused changes nothing.
-/
theorem memory_store_history (calls : List StoreCall) :
    ∃ store : MemoryStore, (ArtifactStore.memory .empty).after calls = .memory store ∧
      store.TellsOf calls := by
  obtain ⟨store, h⟩ := MemoryStore.exists_follows calls
  exact ⟨store, h.after, h.tellsOf⟩

end Bulletin
