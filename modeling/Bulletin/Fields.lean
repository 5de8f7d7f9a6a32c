/-!
# Ordered fields

`Fields α` is a list of named values in which no name occurs twice. The order is the order in
which the names first came; writing a name again replaces its value and keeps its place. Rows,
settings, parameters and options are fields.

The invariant is part of the type, so a reader of `Fields` never has to ask which of two equal
names counts.
-/

namespace Bulletin

/-! ## Lists of entries -/

/-- Replaces the value of a name in its place, or adds the name at the end. -/
def putEntry {α : Type} (key : String) (value : α) : List (String × α) → List (String × α)
  | [] => [(key, value)]
  | entry :: rest =>
    if entry.1 = key then (key, value) :: rest else entry :: putEntry key value rest

/-- The value of the first entry with a name. -/
def lookupValue? {α : Type} (key : String) : List (String × α) → Option α
  | [] => none
  | entry :: rest => if entry.1 = key then some entry.2 else lookupValue? key rest

/-- Writing an entry keeps the names that are there and adds a new name at the end. -/
theorem keys_putEntry {α : Type} (key : String) (value : α) (entries : List (String × α)) :
    (putEntry key value entries).map Prod.fst =
      if key ∈ entries.map Prod.fst then entries.map Prod.fst
      else entries.map Prod.fst ++ [key] := by
  induction entries with
  | nil => simp [putEntry]
  | cons entry rest ih =>
    by_cases h : entry.1 = key
    · simp [putEntry, h]
    · by_cases hr : key ∈ rest.map Prod.fst
      · have : ¬ key = entry.1 := fun e => h e.symm
        simp_all [putEntry]
      · have : ¬ key = entry.1 := fun e => h e.symm
        simp_all [putEntry]

theorem nodup_putEntry {α : Type} {key : String} {value : α} {entries : List (String × α)}
    (h : (entries.map Prod.fst).Nodup) : ((putEntry key value entries).map Prod.fst).Nodup := by
  rw [keys_putEntry]
  split
  · exact h
  · rename_i hk
    rw [List.nodup_append]
    refine ⟨h, by simp, ?_⟩
    intro a ha b hb hab
    simp only [List.mem_singleton] at hb
    exact hk (hb ▸ hab ▸ ha)

/-! ## The type -/

/-- Named values in order, without repeated names. -/
structure Fields (α : Type) where
  entries : List (String × α)
  distinct : (entries.map Prod.fst).Nodup
deriving DecidableEq

namespace Fields

variable {α β : Type}

def empty : Fields α := ⟨[], List.nodup_nil⟩

instance : EmptyCollection (Fields α) := ⟨empty⟩

instance : Inhabited (Fields α) := ⟨empty⟩

def insert (fields : Fields α) (key : String) (value : α) : Fields α :=
  ⟨putEntry key value fields.entries, nodup_putEntry fields.distinct⟩

/-- Enters a list of entries one after the other. -/
def ofList (entries : List (String × α)) : Fields α :=
  entries.foldl (fun fields entry => fields.insert entry.1 entry.2) empty

def get? (fields : Fields α) (key : String) : Option α := lookupValue? key fields.entries

def keys (fields : Fields α) : List String := fields.entries.map Prod.fst

def values (fields : Fields α) : List α := fields.entries.map Prod.snd

def isEmpty (fields : Fields α) : Bool := fields.entries.isEmpty

def single (key : String) (value : α) : Fields α := ⟨[(key, value)], by simp⟩

/-- Takes a name and its value out. -/
def erase (fields : Fields α) (key : String) : Fields α :=
  ⟨fields.entries.filter fun entry => entry.1 ≠ key,
    fields.distinct.sublist (List.filter_sublist.map Prod.fst)⟩

def contains (fields : Fields α) (key : String) : Bool := (fields.get? key).isSome

/-- Changes every value and keeps the names. -/
def map (f : α → β) (fields : Fields α) : Fields β :=
  ⟨fields.entries.map fun entry => (entry.1, f entry.2), by
    have h : (fields.entries.map fun entry => (entry.1, f entry.2)).map Prod.fst
        = fields.entries.map Prod.fst := by simp [Function.comp_def]
    rw [h]
    exact fields.distinct⟩

@[simp] theorem keys_map (f : α → β) (fields : Fields α) : (fields.map f).keys = fields.keys := by
  simp [keys, map, Function.comp_def]

theorem keys_insert (fields : Fields α) (key : String) (value : α) :
    (fields.insert key value).keys =
      if key ∈ fields.keys then fields.keys else fields.keys ++ [key] :=
  keys_putEntry key value fields.entries

end Fields

end Bulletin
