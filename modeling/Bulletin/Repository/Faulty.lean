import Bulletin.Repository.Keyed
import Bulletin.Repository.Memory

/-!
# Repositories that fail on demand

A fault lets some calls of one name through and then spoils some: they fail, or the thing that
they look for is not there. Faults show how a service behaves when storage does not.
-/

namespace Bulletin

/-! ## Faults -/

inductive FaultMode where
  /-- the call fails -/
  | failure
  /-- a look-up finds nothing; other calls are not touched -/
  | absence
deriving DecidableEq

/-- How many calls still pass, how many are then spoiled, and how. -/
structure Fault where
  skip : Nat
  times : Nat
  mode : FaultMode
deriving DecidableEq

namespace Fault

/-- Reads a fault: one failure of the next call where nothing else is said. -/
def ofDraft? (v : Draft) : Option Fault := do
  let number (key : String) (fallback : Nat) : Option Nat :=
    match v.member? key with
    | none | some .null => some fallback
    | some n => n.readNat? UInt64.size
  let mode : FaultMode := match v.member? "mode" with
    | some (.string "none") => .absence
    | _ => .failure
  return { skip := ← number "skip" 0, times := ← number "times" 1, mode }

/-- Whether the next call is spoiled, and the fault after it. -/
def next (fault : Fault) : Bool × Fault :=
  if 0 < fault.skip then (false, { fault with skip := fault.skip - 1 })
  else if 0 < fault.times then (true, { fault with times := fault.times - 1 })
  else (false, fault)

/-- What a spoiled call answers, if it is not passed on. -/
def answer (mode : FaultMode) (call : Call) : Option call.Answer :=
  match mode, call with
  | .failure, call => some (.error (.task ("injected in " ++ call.name)))
  | .absence, .get _ _ => some (.ok none)
  | .absence, _ => none

end Fault

/-! ## Repositories -/

/-- A repository of one of the two makes. -/
inductive Repository where
  | memory (tables : MemoryRepository)
  | keyed (tables : KeyedRepository)

/-- Answers a call. -/
def Repository.answer (repository : Repository) (call : Call) : call.Answer × Repository :=
  match repository with
  | .memory tables =>
    let (answer, tables) := tables.answer call
    (answer, .memory tables)
  | .keyed tables =>
    let (answer, tables) := tables.answer call
    (answer, .keyed tables)

/-- A repository with faults by the names of calls. -/
structure FaultyRepository where
  repository : Repository
  faults : Fields Fault

namespace FaultyRepository

def sound (repository : Repository) : FaultyRepository := ⟨repository, ∅⟩

/-- Sets the fault of a name. -/
def inject (r : FaultyRepository) (name : String) (fault : Fault) : FaultyRepository :=
  { r with faults := r.faults.insert name fault }

/-- What the faults do to a call, and the faults after it. -/
def spoil (r : FaultyRepository) (call : Call) : Option call.Answer × FaultyRepository :=
  match r.faults.get? call.name with
  | none => (none, r)
  | some fault =>
    let (spoiled, next) := fault.next
    (if spoiled then Fault.answer fault.mode call else none, r.inject call.name next)

/-- Answers a call, unless a fault does. -/
def answer (r : FaultyRepository) (call : Call) : call.Answer × FaultyRepository :=
  match r.spoil call with
  | (some answer, r) => (answer, r)
  | (none, r) =>
    let (answer, repository) := r.repository.answer call
    (answer, { r with repository })

end FaultyRepository

end Bulletin
