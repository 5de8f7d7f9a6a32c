import Bulletin.Proofs.RequiredSettings
import Bulletin.Proofs.Traces

/-!
# Sources queried in turn

The sources of a query are asked one after the other, each in the world that the one before has left
behind, so that what a connector answers may depend on all that was asked before.

`Query.Concludes` says what the query of one source comes to, with one case for each way: three in
which no connector is asked, and three in which one is asked once. `Query.turns` lines the sources
up as if none of them ever failed. A query of all sources goes along this line up to the first
source that gives no rows.

* `Query.concludes_execute` — one source
* `Query.run_executeAll_cons`, `Query.executeAll_cons_of_not_gives` — one source before others
* `sources_in_turn` — all sources
-/

namespace Bulletin

namespace Query

/-! ## One source -/

/-- What the query of one source comes to: the call that it makes, if it makes one, and its end. -/
inductive Concludes (connectors : Connectors) (input : QueryInput) (source : Source) :
    Option Event → Ending QueryError (List Record) → Prop
  /-- no source of this kind can be queried -/
  | unsupported {kind : String} (hkind : source.kind = .unsupported kind) :
    Concludes connectors input source none (.error (.unsupportedSourceKind kind))
  /-- there is no connector for the kind -/
  | unavailable (hkind : source.kind.known = true) (hserves : ¬ connectors.Serves source.kind) :
    Concludes connectors input source none (.error (.connectorUnavailable source.kind.tag))
  /-- the source lacks the setting of its kind -/
  | missing {field : String} (hserves : connectors.Serves source.kind)
    (hmissing : source.missingSetting? input.query = some field) :
    Concludes connectors input source none (.error (.missingField source.name field))
  /-- a database is asked, and its answer is the end -/
  | relational {text : String} {connection : Fields Json} (reply : Reply (List Record))
    (hkind : source.kind = .relational) (hserves : connectors.Serves source.kind)
    (htext : queryText? source input = some text)
    (hconnection : connection = ((source.config.get? "connection").bind Json.fields?).getD ∅) :
    Concludes connectors input source
      (some ⟨.relational connection (Sql.prepare text input.parameters input.filters), reply⟩)
      (endingOf reply)
  /-- the stored datasets are asked; of one that is found, the rows that pass the filters are
  given -/
  | dataset {id : String} (reply : Reply (Option (List Record)))
    (hkind : source.kind = .dataset) (hid : source.setting? "dataset_id" = some id) :
    Concludes connectors input source (some ⟨.dataset id, reply⟩)
      (endingOfDataset id input.filters reply)
  /-- an external interface is asked, and its answer is the end -/
  | api {url : String} (reply : Reply (List Record)) (hkind : source.kind = .externalApi)
    (hserves : connectors.Serves source.kind) (hurl : source.setting? "url" = some url) :
    Concludes connectors input source (some ⟨.api (apiRequest source input url), reply⟩)
      (endingOf reply)

section

variable {connectors : Connectors} {source : Source} {input : QueryInput} {events : List Event}
  {ending : Ending QueryError (List Record)}

/-- A query that asks is one call and its end. -/
theorem Asks.concludes {query : Action QueryError (List Record)} {r : Request}
    {conclude : r.Answer → Ending QueryError (List Record)} (h : Asks query r conclude)
    (hyields : query.Yields events ending) :
    ∃ answer, events = [⟨r, answer⟩] ∧ ending = conclude answer := by
  rw [h.eq_ask] at hyields
  cases hyields with
  | @ask _ _ answer _ _ hstop =>
    obtain ⟨rfl, rfl⟩ := Action.yields_stop.mp hstop
    exact ⟨answer, rfl, rfl⟩

/-- **One source.** Its query makes one call at most, and comes to one of the ends above. -/
theorem concludes_execute (h : (execute connectors source input).Yields events ending) :
    ∃ call : Option Event, events = call.toList ∧
      Concludes connectors input source call ending := by
  -- a setting that is missing is told without a call, whatever the kind
  have missing {field : String} (hserves : connectors.Serves source.kind)
      (hmissing : source.missingSetting? input.query = some field) :
      ∃ call : Option Event, events = call.toList ∧
        Concludes connectors input source call ending := by
    rw [execute_of_missing hserves hmissing] at h
    obtain ⟨rfl, rfl⟩ := Action.yields_stop.mp h
    exact ⟨none, rfl, .missing hserves hmissing⟩
  -- so is a connector that is not there
  have unavailable (hkind : source.kind.known = true) (hserves : ¬ connectors.Serves source.kind)
      (hfail : execute connectors source input = .fail (.connectorUnavailable source.kind.tag)) :
      ∃ call : Option Event, events = call.toList ∧
        Concludes connectors input source call ending := by
    rw [hfail] at h
    obtain ⟨rfl, rfl⟩ := Action.yields_stop.mp h
    exact ⟨none, rfl, .unavailable hkind hserves⟩
  cases hkind : source.kind with
  | unsupported kind =>
    rw [show execute connectors source input = .fail (.unsupportedSourceKind kind) by
      rw [execute, hkind]] at h
    obtain ⟨rfl, rfl⟩ := Action.yields_stop.mp h
    exact ⟨none, rfl, .unsupported hkind⟩
  | relational =>
    by_cases hthere : connectors.relational = true
    · have hserves : connectors.Serves source.kind := by rwa [hkind]
      cases htext : queryText? source input with
      | none => exact missing hserves ((queryText?_eq_none_iff hkind).mp htext)
      | some text =>
        rw [show execute connectors source input = relational connectors source input by
          rw [execute, hkind], relational, if_pos hthere, htext] at h
        obtain ⟨reply, rfl, rfl⟩ := (asks_relational _ _).concludes h
        exact ⟨some _, rfl, .relational reply hkind hserves htext rfl⟩
    · refine unavailable (by rw [hkind]; rfl) (by rwa [hkind]) ?_
      rw [execute, hkind]
      exact if_neg hthere
  | dataset =>
    cases hid : source.setting? "dataset_id" with
    | none =>
      refine missing (by rw [hkind]; trivial) (Source.missingSetting?_of_setting ?_ hid)
      rw [Source.requiredSetting, hkind]
    | some id =>
      rw [show execute connectors source input = dataset source input by rw [execute, hkind]] at h
      obtain ⟨reply, rfl, rfl⟩ := (asks_dataset input hid).concludes h
      exact ⟨some _, rfl, .dataset reply hkind hid⟩
  | externalApi =>
    by_cases hthere : connectors.api = true
    · have hserves : connectors.Serves source.kind := by rwa [hkind]
      cases hurl : source.setting? "url" with
      | none =>
        refine missing hserves (Source.missingSetting?_of_setting ?_ hurl)
        rw [Source.requiredSetting, hkind]
      | some url =>
        rw [show execute connectors source input = api connectors source input by
          rw [execute, hkind], api, if_pos hthere, hurl] at h
        obtain ⟨reply, rfl, rfl⟩ := (asks_api _).concludes h
        exact ⟨some _, rfl, .api reply hkind hserves hurl⟩
    · refine unavailable (by rw [hkind]; rfl) (by rwa [hkind]) ?_
      rw [execute, hkind]
      exact if_neg hthere

end

/-! ## Turns -/

/-- The rows of an end that has some. -/
def rowsOf : Ending QueryError (List Record) → List Record
  | .value rows => rows
  | .error _ | .crash _ => []

/-- What the query of a source did in its turn. -/
structure Turn (σ : Type) where
  source : Source
  events : List Event
  ending : Ending QueryError (List Record)
  after : σ

/-- The source gave rows. -/
def Turn.Gives {σ : Type} (turn : Turn σ) : Prop := ∃ rows, turn.ending = .value rows

variable {σ : Type}

/-- The turn of a source in a world that stands at `s`. -/
def turn (world : World σ) (connectors : Connectors) (input : QueryInput) (source : Source)
    (s : σ) : Turn σ where
  source := source
  events := (execute connectors source input).trace world s
  ending := ((execute connectors source input).run world s).1
  after := ((execute connectors source input).run world s).2

/-- The turns of some sources, each in the world that the one before has left behind. -/
def turns (world : World σ) (connectors : Connectors) (input : QueryInput) :
    List Source → σ → List (Turn σ)
  | [], _ => []
  | source :: rest, s =>
    let first := turn world connectors input source s
    first :: turns world connectors input rest first.after

variable {world : World σ} {connectors : Connectors} {input : QueryInput} {source : Source}
  {sources : List Source} {s : σ}

theorem map_source_turns : (turns world connectors input sources s).map Turn.source = sources := by
  induction sources generalizing s with
  | nil => rfl
  | cons source rest ih => exact congrArg (source :: ·) ih

theorem turn_concludes (s : σ) :
    ∃ call : Option Event, (turn world connectors input source s).events = call.toList ∧
      Concludes connectors input source call (turn world connectors input source s).ending :=
  concludes_execute (Action.yields_trace world (execute connectors source input) s)

theorem turns_conclude {t : Turn σ} (ht : t ∈ turns world connectors input sources s) :
    ∃ call : Option Event, t.events = call.toList ∧
      Concludes connectors input t.source call t.ending := by
  induction sources generalizing s with
  | nil => exact nomatch ht
  | cons source rest ih =>
    rcases List.mem_cons.mp ht with rfl | ht
    · exact turn_concludes s
    · exact ih ht

/-! ## One source before others -/

/-- A source that gives rows puts them before those of the others. -/
theorem run_executeAll_cons {rows : List Record}
    (h : (turn world connectors input source s).ending = .value rows) :
    (executeAll connectors input (source :: sources)).run world s =
      match (executeAll connectors input sources).run world
          (turn world connectors input source s).after with
      | (.value others, s') => (.value (rows ++ others), s')
      | (.error e, s') => (.error e, s')
      | (.crash c, s') => (.crash c, s') := by
  have hfirst : (execute connectors source input).run world s
      = (.value rows, (turn world connectors input source s).after) := Prod.ext h rfl
  rw [executeAll, Action.run_bind, hfirst]
  refine (Action.run_bind world (executeAll connectors input sources)
    (fun others => pure (rows ++ others)) _).trans ?_
  rcases (executeAll connectors input sources).run world _ with ⟨_ | _ | _, _⟩ <;> rfl

theorem trace_executeAll_cons {rows : List Record}
    (h : (turn world connectors input source s).ending = .value rows) :
    (executeAll connectors input (source :: sources)).trace world s =
      (turn world connectors input source s).events ++
        (executeAll connectors input sources).trace world
          (turn world connectors input source s).after := by
  have hfirst : (execute connectors source input).run world s
      = (.value rows, (turn world connectors input source s).after) := Prod.ext h rfl
  rw [executeAll, Action.trace_bind, hfirst]
  refine congrArg (_ ++ ·) ((Action.trace_bind _ _ _).trans ?_)
  -- joining the rows asks for nothing
  rcases (executeAll connectors input sources).run world _ with ⟨_ | _ | _, _⟩ <;>
    exact List.append_nil _

/-- A source that gives no rows ends the query. -/
theorem executeAll_cons_of_not_gives (sources : List Source)
    (h : ¬ (turn world connectors input source s).Gives) :
    (executeAll connectors input (source :: sources)).run world s =
        ((turn world connectors input source s).ending,
          (turn world connectors input source s).after) ∧
      (executeAll connectors input (source :: sources)).trace world s =
        (turn world connectors input source s).events := by
  rw [executeAll, Action.run_bind, Action.trace_bind]
  rcases hrun : (execute connectors source input).run world s with ⟨rows | e | c, s'⟩
  · exact absurd ⟨rows, congrArg Prod.fst hrun⟩ h
  · simp only [turn, hrun, List.append_nil, and_self]
  · simp only [turn, hrun, List.append_nil, and_self]

/-! ## All sources -/

/-- All sources give rows. -/
theorem executeAll_of_gives (h : ∀ t ∈ turns world connectors input sources s, t.Gives) :
    ((executeAll connectors input sources).run world s).1
        = .value ((turns world connectors input sources s).flatMap fun t => rowsOf t.ending) ∧
      (executeAll connectors input sources).trace world s
        = (turns world connectors input sources s).flatMap Turn.events := by
  induction sources generalizing s with
  | nil => exact ⟨rfl, rfl⟩
  | cons source rest ih =>
    obtain ⟨⟨rows, hrows⟩, hrest⟩ := List.forall_mem_cons.mp h
    obtain ⟨hending, htrace⟩ := ih hrest
    constructor
    · rw [run_executeAll_cons hrows]
      rcases hothers : (executeAll connectors input rest).run world _ with ⟨ending, s'⟩
      rw [hothers] at hending
      obtain rfl : ending = _ := hending
      rw [turns, List.flatMap_cons, hrows]
      rfl
    · rw [trace_executeAll_cons hrows, htrace]
      rfl

/-- The first source that gives no rows ends the query. -/
theorem executeAll_of_first {earlier later : List (Turn σ)} {t : Turn σ}
    (hturns : turns world connectors input sources s = earlier ++ t :: later)
    (hearlier : ∀ t ∈ earlier, t.Gives) (ht : ¬ t.Gives) :
    (executeAll connectors input sources).run world s = (t.ending, t.after) ∧
      (executeAll connectors input sources).trace world s
        = (earlier ++ [t]).flatMap Turn.events := by
  induction earlier generalizing sources s with
  | nil =>
    cases sources with
    | nil => exact nomatch hturns
    | cons source rest =>
      obtain ⟨rfl, -⟩ := List.cons.inj hturns
      obtain ⟨hrun, htrace⟩ := executeAll_cons_of_not_gives rest ht
      exact ⟨hrun, htrace.trans (List.append_nil _).symm⟩
  | cons first earlier ih =>
    cases sources with
    | nil => exact nomatch hturns
    | cons source rest =>
      obtain ⟨rfl, hrest⟩ := List.cons.inj hturns
      obtain ⟨⟨rows, hrows⟩, hearlier⟩ := List.forall_mem_cons.mp hearlier
      obtain ⟨hrun, htrace⟩ := ih hrest hearlier
      constructor
      · rw [run_executeAll_cons hrows, hrun]
        cases hending : t.ending with
        | value rows => exact absurd ⟨rows, hending⟩ ht
        | error e => rfl
        | crash c => rfl
      · rw [trace_executeAll_cons hrows, htrace]
        rfl

/-- A line of turns either gives rows at every turn or has a first turn that gives none. -/
theorem gives_or_first (line : List (Turn σ)) :
    (∀ t ∈ line, t.Gives) ∨
      ∃ earlier t later, line = earlier ++ t :: later ∧ (∀ t ∈ earlier, t.Gives) ∧ ¬ t.Gives := by
  induction line with
  | nil => exact .inl (List.forall_mem_nil _)
  | cons first rest ih =>
    by_cases hfirst : first.Gives
    · rcases ih with hrest | ⟨earlier, t, later, rfl, hearlier, ht⟩
      · exact .inl (List.forall_mem_cons.mpr ⟨hfirst, hrest⟩)
      · exact .inr ⟨first :: earlier, t, later, rfl,
          List.forall_mem_cons.mpr ⟨hfirst, hearlier⟩, ht⟩
    · exact .inr ⟨[], first, rest, rfl, List.forall_mem_nil _, hfirst⟩

end Query

open Query in
/-- **Sources in turn.** Every source makes one call at most in its turn and comes to an end of its
kind. If all give rows, the query gives these rows one after the other and has made all the calls.
If not, it ends as the first that gives none, and no call is made after that source. -/
theorem sources_in_turn {σ : Type} (world : World σ) (connectors : Connectors) (input : QueryInput)
    (sources : List Source) (s : σ) :
    let query := executeAll connectors input sources
    let line := turns world connectors input sources s
    line.map Turn.source = sources ∧
    (∀ t ∈ line, ∃ call : Option Event, t.events = call.toList ∧
      Concludes connectors input t.source call t.ending) ∧
    ((∃ rows, (query.run world s).1 = .value rows) ↔ ∀ t ∈ line, t.Gives) ∧
    ((∀ t ∈ line, t.Gives) ∧
        (query.run world s).1 = .value (line.flatMap fun t => rowsOf t.ending) ∧
        query.trace world s = line.flatMap Turn.events ∨
      ∃ earlier t later, line = earlier ++ t :: later ∧ (∀ t ∈ earlier, t.Gives) ∧ ¬ t.Gives ∧
        query.run world s = (t.ending, t.after) ∧
        query.trace world s = (earlier ++ [t]).flatMap Turn.events) := by
  intro query line
  refine ⟨map_source_turns, fun t ht => turns_conclude ht, ?_⟩
  rcases gives_or_first line with hgives | ⟨earlier, t, later, hline, hearlier, ht⟩
  · obtain ⟨hending, htrace⟩ := executeAll_of_gives hgives
    exact ⟨⟨fun _ => hgives, fun _ => ⟨_, hending⟩⟩, .inl ⟨hgives, hending, htrace⟩⟩
  · obtain ⟨hrun, htrace⟩ := executeAll_of_first hline hearlier ht
    refine ⟨⟨?_, ?_⟩, .inr ⟨earlier, t, later, hline, hearlier, ht, hrun, htrace⟩⟩
    · rintro ⟨rows, hrows⟩
      rw [hrun] at hrows
      exact absurd ⟨rows, hrows⟩ ht
    · intro hgives
      exact absurd (hgives t (hline ▸ by simp)) ht

end Bulletin
