import Bulletin.Ident

/-!
# Counted identifiers

Identifiers that are made one after the other instead of by chance. The work is cut into steps, and
the identifiers of a step are counted from one, so that what one step makes does not depend on how
many the others made.
-/

namespace Bulletin

structure IdCounter where
  step : Nat
  /-- how many identifiers there are in this step -/
  made : Nat
deriving DecidableEq

namespace IdCounter

def start : IdCounter := ⟨0, 0⟩

/-- How many identifiers a step can have before those of the next one begin. -/
def stepSize : Nat := 0x1000000

/-- The identifier with a number in a step. -/
def id (step number : Nat) : Uuid :=
  .ofNat (0x00000000000040008000000000000000 + step * stepSize + number)

def next (counter : IdCounter) : Uuid × IdCounter :=
  (id counter.step (counter.made + 1), { counter with made := counter.made + 1 })

/-- The first identifiers of the step, as a sequence. -/
def sequence (counter : IdCounter) (n : Nat) : Uuid := id counter.step (counter.made + n + 1)

def nextStep (counter : IdCounter) : IdCounter := ⟨counter.step + 1, 0⟩

end IdCounter

end Bulletin
