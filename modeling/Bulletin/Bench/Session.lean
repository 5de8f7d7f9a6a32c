import Bulletin.Bench.Basic
import Bulletin.Definitions

/-!
# Working at the bench

The steps of a session at a bench: moving the clock, triggering reports, waiting for the runs in
the background, and letting the two schedulers run.
-/

namespace Bulletin.Bench

/-! ## The clock -/

/-- The greatest count of milliseconds in a duration. -/
def durationLimit : Nat := 9223372036854775807

/-- Moves the clock by minutes and milliseconds at once. There is no such bench if a part is no
duration or the end lies beyond the calendar. -/
def advance? (bench : Bench) (minutes millis : Int) : Option Bench :=
  if (minutes * 60000).natAbs ≤ durationLimit ∧ millis.natAbs ≤ durationLimit then
    (bench.clock.addMillis? (minutes * 60000 + millis)).map fun clock => { bench with clock }
  else none

/-! ## Runs in the background -/

/-- Runs one report to its end. -/
def drainOne (bench : Bench) (run : Report × Execution) : Bench :=
  match bench.perform (bench.engine.conduct run.1 run.2 : Action EngineError Execution) with
  | (.value execution, bench) => { bench with ended := bench.ended ++ [execution] }
  | (_, bench) => bench

/-- Runs everything that waits in the background, in the order of the triggers. -/
def drain (bench : Bench) : Bench :=
  bench.pending.foldl drainOne { bench with pending := [] }

/-- The final execution of a trigger. -/
def finalExecution (bench : Bench) : Engine.Triggered → Execution
  | .finished execution => execution
  | .launched execution =>
    (bench.ended.find? fun e => e.id = execution.id).getD execution

/-- Triggers a report. -/
def trigger (bench : Bench) (id : ReportId) (trigger : Trigger) :
    Ending EngineError Engine.Triggered × Bench :=
  match bench.perform (bench.engine.trigger id trigger) with
  | (.value triggered, bench) =>
    (.value triggered, { bench with triggers := bench.triggers ++ [triggered] })
  | other => other

/-- Waits for everything, and gives the final executions of the triggers since the last time. -/
def settle (bench : Bench) : List Execution × Bench :=
  let bench := bench.drain
  (bench.triggers.map bench.finalExecution, { bench with triggers := [] })

/-- Triggers a report and waits for its run. -/
def run (bench : Bench) (id : ReportId) (trigger : Trigger) :
    Ending EngineError Execution × Bench :=
  match bench.perform (bench.engine.trigger id trigger) with
  | (.value (.finished execution), bench) => (.value execution, bench)
  | (.value triggered, bench) =>
    let bench := bench.drain
    (.value (bench.finalExecution triggered), bench)
  | (.error e, bench) => (.error e, bench)
  | (.crash c, bench) => (.crash c, bench)

/-! ## Schedulers -/

/-- One tick of a scheduler that may still be alive, and whether it is alive after it. An error of
a tick is passed over, a crash ends the scheduler. The runs that wait in the background come to
their end in any case. -/
def tickOnce {ε α : Type} (tick : Action ε α) (alive : Bool) (bench : Bench) : Bool × Bench :=
  if alive then
    match bench.perform tick with
    | (.crash _, bench) => (false, bench.drain)
    | (_, bench) => (true, bench.drain)
  else (false, bench.drain)

/-- Lets a scheduler tick a number of times and says whether it is alive at the end. Between two
ticks the clock moves by some minutes, also after a crash; a move beyond the calendar ends
everything. -/
def runTicks {ε α : Type} (tick : Action ε α) (minutes : Int) :
    Nat → (alive : Bool) → Bench → Bool × Bench
  | 0, alive, bench => (alive, bench)
  | count + 1, alive, bench =>
    let (alive, bench) := tickOnce tick alive bench
    if count = 0 then (alive, bench)
    else
      match bench.advance? minutes 0 with
      | none => (false, bench)
      | some bench => runTicks tick minutes count alive bench

/-- Lets the scheduler of reports run, and says whether it is alive at the end. -/
def runReports (bench : Bench) (ticks : Nat) (minutes : Int) : Bool × Bench :=
  runTicks bench.engine.tick minutes ticks true bench.drain

/-- Lets the scheduler of alert rules run, and says whether it is alive at the end. -/
def runAlerts (bench : Bench) (ticks : Nat) (minutes : Int) : Bool × Bench :=
  runTicks bench.evaluator.tick minutes ticks true bench.drain

/-! ## Definitions -/

/-- Reads definitions whose entries get the identifiers of this step. -/
def readDefinitions? (bench : Bench) (v : Draft) : Option Definitions :=
  Definitions.ofDraft? bench.ids.sequence v

end Bulletin.Bench
