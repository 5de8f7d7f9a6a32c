import Bulletin.Proofs.AmongWriters
import Bulletin.Proofs.ExecutionLives
import Bulletin.Proofs.InstantText
import Bulletin.Proofs.TriggerOutcomes
import Bulletin.Proofs.WidgetRefreshes

/-!
# Refreshes among other writers

While a widget is refreshed, others may write whatever they like, the widget included. A refresh has
three exits before it writes: its widget is unknown or not valid, the cache is fresh, or there is no
chart. Then it has left everything to the others. Otherwise it reads the widget again, and what it
saves is this version with the chart and the time in its cache and nothing else changed. The same
chart is shown by the next refresh, from the cache.

* `Instant.before_of_addMinutes?` — a cache with any time to live is fresh when it is written
* `visit_refreshWidget_fresh` — a refresh of a widget whose cache is fresh
* `refreshes_of_yields` — all that a refresh comes to
* `refresh_among_writers` — and it always comes to one of it
-/

namespace Bulletin

/-! ## Fresh caches -/

/-- Some minutes later is later, in a leap second too. -/
theorem Instant.before_of_addMinutes? {t stop : Instant} {minutes : Nat} (h : 0 < minutes)
    (hstop : t.addMinutes? minutes = some stop) : t.before stop = true := by
  have hnanos : (minutes : Int) * 60000000000 = minutes * 60 * 1000000000 := by omega
  have hmoved : ¬ (1000000000 ≤ t.nano ∧ (minutes : Int) * 60 = 0 ∧
      (t.nano : Int) + 0 < 2000000000) := by omega
  have hforward : ¬ (1000000000 ≤ t.nano ∧ (minutes : Int) * 60 < 0) := by omega
  unfold addMinutes? add? at hstop
  rw [hnanos, Int.mul_tdiv_cancel _ (by decide), Int.mul_tmod_left] at hstop
  simp only [if_neg hmoved, if_neg hforward] at hstop
  obtain ⟨hsecond, -⟩ := ofParts?_eq_some hstop
  refine before_eq_true_iff.mpr (.inl ?_)
  rw [hsecond, Int.fdiv_eq_ediv_of_nonneg _ (by decide)]
  split <;> omega

/-- A cache that has just been written serves what was written. -/
theorem Cache.serves_store {cache : Cache} {chart : Json} {now : Instant}
    (httl : 0 < cache.ttlMinutes.toNat) (hwithin : now.addMinutes? cache.ttlMinutes.toNat ≠ none) :
    (cache.store chart now).Serves now chart := by
  obtain ⟨stop, hstop⟩ := Option.ne_none_iff_exists'.mp hwithin
  exact ⟨rfl, now, stop, rfl, hstop, Instant.before_of_addMinutes? httl hstop⟩

/-! ## What a refresh comes to -/

/-- Something is looked up, and is found or not. -/
def lookedUp {kind : EntityKind} (id : Id kind) (found : Option kind.Entity) : Event :=
  ⟨.call (.get kind id), .ok found⟩

/-- A widget is saved. -/
def savedWidget (widget : Widget) : Event := ⟨.call (.save .widget widget), .ok ()⟩

/-- After some of its events the action looks something up. It finds what the others have made of
the repository by then. -/
def MemoryRepository.Finds {kind : EntityKind} (r : MemoryRepository) (entries : List LogEntry)
    (first : List Event) (id : Id kind) (found : Option kind.Entity) : Prop :=
  ∃ before after, entries = before ++ .own (lookedUp id found) :: after ∧
    ownEvents before = first ∧ ((r.afterCalls (otherCalls before)).get kind).get? id = found

/-- A widget with a chart in its cache, written at some time. -/
def Widget.charted (widget : Widget) (chart : Json) (now : Instant) : Widget :=
  { widget with cache := { widget.cache with payload := some chart, cachedAt := some now } }

namespace Engine

/-- The chart of a widget for some rows. -/
def chartOf (engine : Engine) (widget : Widget) (rows : List Record) : Json :=
  (Chart.build engine.config.chartCap
    (TransformStep.applyAll rows widget.query.transformations) widget.chart).toJson

/-- As long as a widget stands, it is shown with a chart from its cache, at the time given: no
connector is asked and nothing changes. -/
def ShowsCached (engine : Engine) (widget : Widget) (chart : Json) (now : Instant) : Prop :=
  ∀ {σ : Type} (outside : World σ) (r : MemoryRepository) (s : σ),
    r.widgets.get? widget.id = some widget → (outside .now s).1 = now →
      (engine.refreshWidget widget.id).visit outside r s =
        ⟨r, .value (.shown widget chart true),
          [lookedUp widget.id (some widget), ⟨.now, now⟩], r⟩

/-- What a refresh among other writers comes to, one case for each of its exits. -/
inductive RefreshesAmid (engine : Engine) (id : WidgetId) (r : MemoryRepository)
    (entries : List LogEntry) : Ending EngineError WidgetView → MemoryRepository → Prop
  | unknown (hfound : r.Finds entries [] id none)
    (hown : ownEvents entries = [lookedUp id none]) :
    RefreshesAmid engine id r entries (.error (.notFound "widget" id.display))
      (r.afterCalls (otherCalls entries))
  | invalid {widget : Widget} {e : DomainError} (hfound : r.Finds entries [] id (some widget))
    (hinvalid : widget.validate = .error e)
    (hown : ownEvents entries = [lookedUp id (some widget)]) :
    RefreshesAmid engine id r entries (.error (.ofDomain e)) (r.afterCalls (otherCalls entries))
  | cached {widget : Widget} {now : Instant} {chart : Json}
    (hfound : r.Finds entries [] id (some widget)) (hvalid : widget.validate = .ok ())
    (hfresh : widget.cache.Serves now chart)
    (hown : ownEvents entries = [lookedUp id (some widget), ⟨.now, now⟩]) :
    RefreshesAmid engine id r entries (.value (.shown widget chart true))
      (r.afterCalls (otherCalls entries))
  | beyondCalendar {widget : Widget} {now : Instant} {c : Crash}
    (hfound : r.Finds entries [] id (some widget)) (hbeyond : widget.BeyondCalendar now)
    (hown : ownEvents entries = [lookedUp id (some widget), ⟨.now, now⟩]) :
    RefreshesAmid engine id r entries (.crash c) (r.afterCalls (otherCalls entries))
  | failed {widget : Widget} {now : Instant} {queried : List Event} {e : QueryError}
    (hfound : r.Finds entries [] id (some widget)) (hvalid : widget.validate = .ok ())
    (hstale : widget.cache.fresh now = some none)
    (hquery : (Query.execute engine.connectors widget.source widget.query.input).Yields queried
      (.error e))
    (hown : ownEvents entries = lookedUp id (some widget) :: ⟨.now, now⟩ :: queried) :
    RefreshesAmid engine id r entries (.error (.query e)) (r.afterCalls (otherCalls entries))
  | broken {widget : Widget} {now : Instant} {queried : List Event} {c : Crash}
    (hfound : r.Finds entries [] id (some widget)) (hvalid : widget.validate = .ok ())
    (hstale : widget.cache.fresh now = some none)
    (hquery : (Query.execute engine.connectors widget.source widget.query.input).Yields queried
      (.crash c))
    (hown : ownEvents entries = lookedUp id (some widget) :: ⟨.now, now⟩ :: queried) :
    RefreshesAmid engine id r entries (.crash c) (r.afterCalls (otherCalls entries))
  | rebuilt {widget latest : Widget} {now written : Instant} {queried : List Event}
    {rows : List Record} {before after : List LogEntry}
    (hfound : r.Finds entries [] id (some widget)) (hvalid : widget.validate = .ok ())
    (hstale : widget.cache.fresh now = some none)
    (hquery : (Query.execute engine.connectors widget.source widget.query.input).Yields queried
      (.value rows))
    (hlatest : r.Finds entries (lookedUp id (some widget) :: ⟨.now, now⟩ :: queried) id
      (some latest))
    (hsaved : entries = before
      ++ .own (savedWidget (latest.charted (engine.chartOf widget rows) written)) :: after)
    (hbefore : ownEvents before = lookedUp id (some widget) :: ⟨.now, now⟩ :: queried
      ++ [lookedUp id (some latest), ⟨.now, written⟩])
    (hafter : ownEvents after = [])
    (hagain : latest.validate = .ok () → 0 < latest.cache.ttlMinutes.toNat →
      written.addMinutes? latest.cache.ttlMinutes.toNat ≠ none →
        engine.ShowsCached (latest.charted (engine.chartOf widget rows) written)
          (engine.chartOf widget rows) written) :
    RefreshesAmid engine id r entries (.value (.shown latest (engine.chartOf widget rows) false))
      (((r.afterCalls (otherCalls before)).put .widget
        (latest.charted (engine.chartOf widget rows) written)).afterCalls (otherCalls after))

end Engine

/-! ## A widget whose cache is fresh -/

variable {engine : Engine} {id : WidgetId} {widget : Widget} {r r' : MemoryRepository}
  {entries : List LogEntry} {ending : Ending EngineError WidgetView}

/-- A refresh of a valid widget whose cache is fresh shows the cache. -/
theorem visit_refreshWidget_fresh {chart : Json} {now : Instant} (hvalid : widget.validate = .ok ())
    (hfresh : widget.cache.Serves now chart) : engine.ShowsCached widget chart now := by
  intro σ outside r s hstored hnow
  have hget : r.answer (.get .widget widget.id) = (.ok (some widget), r) := by
    rw [← hstored]
    rfl
  have hcache : widget.cache.fresh now = some (some chart) := Cache.fresh_eq_some_iff.mpr hfresh
  unfold Action.visit Engine.refreshWidget
  rw [MemoryRepository.run_call hget, MemoryRepository.trace_call hget]
  simp only [hvalid]
  rw [Action.run_ofExcept_mapError_ok, Action.trace_ofExcept_mapError_ok,
    MemoryRepository.run_now, MemoryRepository.trace_now, hnow, hcache]
  rfl

/-- A widget that has been refreshed shows its chart from the cache. -/
theorem showsCached_charted {chart : Json} {now : Instant} (hvalid : widget.validate = .ok ())
    (httl : 0 < widget.cache.ttlMinutes.toNat)
    (hwithin : now.addMinutes? widget.cache.ttlMinutes.toNat ≠ none) :
    engine.ShowsCached (widget.charted chart now) chart now :=
  @visit_refreshWidget_fresh engine (widget.charted chart now) chart now hvalid
    (Cache.serves_store httl hwithin)

/-! ## What is read and written -/

theorem Request.IsQuery.savesNothing {request : Request} (h : request.IsQuery) :
    request.SavesNothing := by
  cases request with
  | call => exact h.elim
  | now | freshId | relational | dataset | api | putArtifact | notify | launch => trivial

namespace MemoryRepository

/-- What an action finds before it has saved anything. -/
theorem Amid.finds {kind : EntityKind} {id : Id kind} {first rest : List Event}
    {answer : Call.Answer (.get kind id)} (h : r.Amid entries r')
    (hown : ownEvents entries = first ++ ⟨.call (.get kind id), answer⟩ :: rest)
    (hfirst : ∀ event ∈ first, event.request.SavesNothing) :
    ∃ found, answer = .ok found ∧ r.Finds entries first id found := by
  obtain ⟨before, after, m, rfl, rfl, -, hm, rfl, -⟩ := h.split hown
  rw [hm.eq_afterCalls hfirst]
  exact ⟨_, rfl, before, after, rfl, rfl, rfl⟩

/-- What an action has found is there when it looks again. -/
theorem Amid.finds_again {first rest : List Event} {answer : Call.Answer (.get .widget id)}
    (h : r.Amid entries r')
    (hown : ownEvents entries = lookedUp id (some widget) :: first
      ++ ⟨.call (.get .widget id), answer⟩ :: rest)
    (hfirst : ∀ event ∈ first, event.request.SavesNothing) :
    ∃ latest, answer = .ok (some latest) ∧
      r.Finds entries (lookedUp id (some widget) :: first) id (some latest) := by
  obtain ⟨found, rfl, hfound⟩ := h.finds hown (List.forall_mem_cons.mpr ⟨trivial, hfirst⟩)
  obtain ⟨before, after, m, -, hbefore, -, hm, hanswer, -⟩ := h.split hown
  rw [← List.nil_append (_ :: _)] at hbefore
  obtain ⟨_, _, m₀, -, -, -, -, hanswer₀, hrest⟩ := hm.split hbefore
  have hstored : m₀.widgets.get? id = some widget := Except.ok.inj hanswer₀
  have hkept := @Amid.keeps_stored _ _ _ .widget id hrest (by
    show m₀.widgets.get? id ≠ none
    rw [hstored]
    nofun)
  obtain ⟨latest, hlatest⟩ := Option.ne_none_iff_exists'.mp hkept
  obtain rfl : some latest = found := hlatest.symm.trans (Except.ok.inj hanswer)
  exact ⟨latest, rfl, hfound⟩

/-- The one thing that an action saves stands as it was saved, until others write again. -/
theorem Amid.saves {first : List Event} {answer : Call.Answer (.save .widget widget)}
    (h : r.Amid entries r')
    (hown : ownEvents entries = first ++ [⟨.call (.save .widget widget), answer⟩])
    (hfirst : ∀ event ∈ first, event.request.SavesNothing) :
    answer = .ok () ∧ ∃ before after, entries = before ++ .own (savedWidget widget) :: after ∧
      ownEvents before = first ∧ ownEvents after = [] ∧
      r' = ((r.afterCalls (otherCalls before)).put .widget widget).afterCalls
        (otherCalls after) := by
  obtain ⟨before, after, m, rfl, rfl, hafter, hm, rfl, hrest⟩ := h.split hown
  refine ⟨rfl, before, after, rfl, rfl, hafter, ?_⟩
  rw [hrest.eq_afterCalls (by simp [hafter]), hm.eq_afterCalls hfirst]
  rfl

end MemoryRepository

/-! ## The exits of a refresh -/

/-- The chart of a widget is the chart of its rows, or what keeps them from being read. -/
theorem widgetChart_yields {events : List Event} {built : Ending EngineError Json}
    (h : (engine.widgetChart widget).Yields events built) :
    ∃ fetched, (Query.execute engine.connectors widget.source widget.query.input).Yields events
        fetched ∧
      built = match fetched with
        | .value rows => .value (engine.chartOf widget rows)
        | .error e => .error (.query e)
        | .crash c => .crash c := by
  obtain ⟨first, last, middle, rfl, hquery, hchart⟩ := Action.yields_andThen.mp h
  obtain ⟨first, second, fetched, rfl, hfetched, hmiddle⟩ := Action.yields_andThen.mp hquery
  refine ⟨fetched, ?_⟩
  cases fetched with
  | value rows | error e | crash c =>
    obtain ⟨rfl, rfl⟩ := Action.yields_stop.mp hmiddle
    obtain ⟨rfl, rfl⟩ := Action.yields_stop.mp hchart
    rw [List.append_nil, List.append_nil]
    exact ⟨hfetched, rfl⟩

/-- The exits of a refresh that has to build a chart. -/
theorem rebuilds_of_yields {now : Instant} {rest : List Event}
    (hfound : r.Finds entries [] id (some widget)) (hvalid : widget.validate = .ok ())
    (hstale : widget.cache.fresh now = some none)
    (h : (engine.rebuild id widget).Yields rest ending)
    (hown : ownEvents entries = lookedUp id (some widget) :: ⟨.now, now⟩ :: rest)
    (hamid : r.Amid entries r') : engine.RefreshesAmid id r entries ending r' := by
  unfold Engine.rebuild at h
  obtain ⟨queried, rest, built, rfl, hchart, hrest⟩ := Action.yields_andThen.mp h
  obtain ⟨fetched, hquery, rfl⟩ := widgetChart_yields hchart
  have hqueried : ∀ event ∈ queried, event.request.SavesNothing := fun event he =>
    (hquery.forall_mem (asksOnly_execute _ _ _) event he).savesNothing
  have hfirst : ∀ event ∈ (⟨.now, now⟩ : Event) :: queried, event.request.SavesNothing :=
    List.forall_mem_cons.mpr ⟨trivial, hqueried⟩
  cases fetched with
  | error e =>
    obtain ⟨rfl, rfl⟩ := Action.yields_stop.mp hrest
    rw [List.append_nil] at hown
    rw [hamid.eq_afterCalls (by
      rw [hown]
      exact List.forall_mem_cons.mpr ⟨trivial, hfirst⟩)]
    exact .failed hfound hvalid hstale hquery hown
  | crash c =>
    obtain ⟨rfl, rfl⟩ := Action.yields_stop.mp hrest
    rw [List.append_nil] at hown
    rw [hamid.eq_afterCalls (by
      rw [hown]
      exact List.forall_mem_cons.mpr ⟨trivial, hfirst⟩)]
    exact .broken hfound hvalid hstale hquery hown
  | value rows =>
    obtain ⟨again, rest, rfl, hread⟩ | ⟨e, rfl, -⟩ := Action.yields_call_bind.mp hrest
    · rw [← List.cons_append, ← List.cons_append] at hown
      obtain ⟨latest, hanswer, hlatest⟩ := hamid.finds_again hown hfirst
      cases hanswer
      obtain ⟨written, rest, rfl, hwritten⟩ := Action.yields_request_bind.mp hread
      have hquiet : ∀ event ∈ (lookedUp id (some widget) :: ⟨.now, now⟩ :: queried)
          ++ [lookedUp id (some latest), ⟨.now, written⟩], event.request.SavesNothing := by
        intro event he
        rcases List.mem_append.mp he with he | he
        · exact List.forall_mem_cons.mpr ⟨trivial, hfirst⟩ event he
        · rcases List.mem_pair.mp he with rfl | rfl <;> trivial
      obtain ⟨_, rest, rfl, hsaved⟩ | ⟨e, rfl, -⟩ := Action.yields_call_bind.mp hwritten
      · obtain ⟨rfl, rfl⟩ := Action.yields_stop.mp hsaved
        obtain ⟨-, before, after, hentries, hbefore, hafter, rfl⟩ := hamid.saves (by
          rw [hown, List.append_assoc]
          rfl) hquiet
        refine @Engine.RefreshesAmid.rebuilt _ _ _ _ widget latest now written queried rows before
          after hfound hvalid hstale hquery hlatest hentries hbefore hafter showsCached_charted
      · obtain ⟨hanswer, -⟩ := hamid.saves (by
          rw [hown, List.append_assoc]
          rfl) hquiet
        cases hanswer
    · rw [← List.cons_append, ← List.cons_append] at hown
      obtain ⟨latest, hanswer, -⟩ := hamid.finds_again hown hfirst
      cases hanswer

/-- The exits of a refresh. -/
theorem refreshes_of_yields (h : (engine.refreshWidget id).Yields (ownEvents entries) ending)
    (hamid : r.Amid entries r') : engine.RefreshesAmid id r entries ending r' := by
  unfold Engine.refreshWidget at h
  generalize hown : ownEvents entries = events at h
  obtain ⟨found, rest, rfl, hrest⟩ | ⟨e, rfl, -⟩ := Action.yields_call_bind.mp h
  · rw [← List.nil_append (_ :: _)] at hown
    obtain ⟨_, ⟨⟩, hfound⟩ := hamid.finds hown (by rintro _ ⟨⟩)
    cases found with
    | none =>
      obtain ⟨rfl, rfl⟩ := Action.yields_stop.mp hrest
      rw [hamid.eq_afterCalls (by simp [hown, Request.SavesNothing])]
      exact .unknown hfound hown
    | some widget =>
      cases hv : widget.validate with
      | error e =>
        simp only [hv] at hrest
        obtain ⟨rfl, rfl⟩ := Action.yields_stop.mp hrest
        rw [hamid.eq_afterCalls (by simp [hown, Request.SavesNothing])]
        exact .invalid hfound hv hown
      | ok _ =>
        simp only [hv] at hrest
        obtain ⟨now, rest, rfl, hnow⟩ := Action.yields_request_bind.mp hrest
        rcases hcache : widget.cache.fresh now with _ | _ | chart
        · rw [hcache] at hnow
          obtain ⟨rfl, rfl⟩ := Action.yields_stop.mp hnow
          rw [hamid.eq_afterCalls (by simp [hown, Request.SavesNothing])]
          exact .beyondCalendar hfound ⟨hv, hcache⟩ hown
        · rw [hcache] at hnow
          exact rebuilds_of_yields hfound hv hcache hnow hown hamid
        · rw [hcache] at hnow
          obtain ⟨rfl, rfl⟩ := Action.yields_stop.mp hnow
          rw [hamid.eq_afterCalls (by simp [hown, Request.SavesNothing])]
          exact .cached hfound hv (Cache.fresh_eq_some_iff.mp hcache) hown
  · rw [← List.nil_append [_]] at hown
    obtain ⟨_, ⟨⟩, -⟩ := hamid.finds hown (by rintro _ ⟨⟩)

/-- **Refreshes among other writers.** Whatever is stored, whatever the connectors answer and
whatever others write meanwhile, a refresh comes to one of its exits, and nothing is left of it but
what this exit says. -/
theorem refresh_among_writers {σ : Type} (engine : Engine) (id : WidgetId)
    (others : MemoryRepository → σ → List Call × σ) (outside : World σ) (r : MemoryRepository)
    (s : σ) :
    engine.RefreshesAmid id r ((engine.refreshWidget id).log others outside (r, s))
      ((engine.refreshWidget id).run (MemoryRepository.shared others outside) (r, s)).1
      ((engine.refreshWidget id).run (MemoryRepository.shared others outside) (r, s)).2.1 := by
  refine refreshes_of_yields ?_ (Action.amid_log _ r s)
  rw [Action.ownEvents_log]
  exact Action.yields_trace _ _ _

end Bulletin
