import Bulletin.Proofs.AlertRoom

/-!
# Alerts under guard

What every run of the evaluators keeps, and what every step of one does to the stored alerts.

The invariant is `Guarded`. It names the rule of every identifier, which no step changes, and keeps
the identifiers that a call was given and has not used yet apart from each other and from those in
the repository. So nothing stored is ever replaced by the opening of an alert.

A step has one of three effects: it leaves the alerts alone, it saves the next step of a version
that was shown at some time, or it opens an alert for a rule without an active one.

* `Guarded.run` — the invariant holds after every run
* `Guarded.effect` — the effects of a step
-/

namespace Bulletin

/-! ## Reserved identifiers -/

/-- The identifier that an event gave out. -/
def Event.reserved : Event → Option Uuid
  | ⟨.freshId, id⟩ => some id
  | _ => none

/-- The identifier that an action was given in its last event. -/
def Thread.reserved {ε α : Type} (t : Thread ε α) : Option Uuid := t.past.head?.bind Event.reserved

theorem nodup_reserved_replace {ε α : Type} {before after : List (Thread ε α)} {t t' : Thread ε α}
    (h : ((before ++ t :: after).filterMap Thread.reserved).Nodup) (ht' : t'.reserved = none) :
    ((before ++ t' :: after).filterMap Thread.reserved).Nodup := by
  refine h.sublist ?_
  rw [List.filterMap_append, List.filterMap_append, List.filterMap_cons_none ht']
  exact (List.Sublist.refl _).append ((List.sublist_cons_self t after).filterMap _)

theorem reserved_ne {ε α : Type} {before after : List (Thread ε α)} {t other : Thread ε α}
    (h : ((before ++ t :: after).filterMap Thread.reserved).Nodup) {id id' : Uuid}
    (ht : t.reserved = some id) (hother : other ∈ before ∨ other ∈ after)
    (hid' : other.reserved = some id') : id' ≠ id := by
  rw [List.filterMap_append, List.filterMap_cons_some ht, List.nodup_append] at h
  obtain ⟨-, hafter, hdisjoint⟩ := h
  rintro rfl
  rcases hother with hmem | hmem
  · exact hdisjoint id' (List.mem_filterMap.mpr ⟨other, hmem, hid'⟩) id' List.mem_cons_self rfl
  · exact (List.nodup_cons.mp hafter).1 (List.mem_filterMap.mpr ⟨other, hmem, hid'⟩)

/-! ## The invariant -/

/-- The invariant of evaluators at work, given the rule of every identifier. -/
structure Guarded {ε α : Type} (owner : AlertId → RuleId) (c : Scene AlertRoom ε α) : Prop where
  obeys : c.Obeys alertProtocol
  inPlace : c.state.repository.InPlace
  stored : ∀ a, c.state.repository.Stored a → a.ruleId = owner a.id
  shown : ∀ t ∈ c.threads, ∀ a, Shown t.past a →
    c.state.repository.Occupied a.id ∧ a.ruleId = owner a.id
  nodup : (c.threads.filterMap Thread.reserved).Nodup
  free : ∀ t ∈ c.threads, ∀ id, t.reserved = some id →
    id ∈ c.state.drawn ∧ ¬ c.state.repository.Occupied ⟨id⟩

/-- The next step of an alert has its identifier and its rule. It is not active, and the alert was
not resolved. -/
theorem Alert.Next.keeps {a b : Alert} (h : a.Next b) :
    b.id = a.id ∧ b.ruleId = a.ruleId ∧ b.status ≠ .active ∧ a.status ≠ .resolved := by
  cases h with
  | acknowledged h =>
    unfold Alert.acknowledge at h
    split at h
    · next hactive =>
      cases h
      exact ⟨rfl, rfl, by simp, by simp [hactive]⟩
    · cases h
  | resolved h =>
    unfold Alert.resolve at h
    split at h
    · cases h
    · next hopen =>
      cases h
      exact ⟨rfl, rfl, by simp, hopen⟩

/-! ## What a step does -/

/-- What a request does to the stored alerts, and what it shows of them. -/
inductive Event.Effect (past : List Event) (r r' : Repository) : Event → Prop
  | quiet {event : Event} (hu : r.Untouched r') (hshows : ∀ a, event.Shows a → r.Stored a) :
    Effect past r r' event
  | saved {alert shown : Alert} {answer : Call.Answer (.save .alert alert)}
    (hshown : Shown past shown) (hnext : shown.Next alert) (hw : r.Wrote alert r') :
    Effect past r r' ⟨.call (.save .alert alert), answer⟩
  | opened {alert : Alert} (hfresh : past.head? = some ⟨.freshId, alert.id.uuid⟩)
    (hfree : ¬ r.Occupied alert.id) (hno : ¬ r.HasActive alert.ruleId) (hw : r.Wrote alert r') :
    Effect past r r' ⟨.call (.createActive alert), .ok true⟩

/-- The three effects are all that a call of an evaluator can have. -/
theorem effect_answer {past : List Event} {r r' : Repository} {c : Call} {answer : c.Answer}
    (hr : r.InPlace) (hrule : alertProtocol past (.call c))
    (hfree : ∀ id : AlertId, past.head? = some ⟨.freshId, id.uuid⟩ → ¬ r.Occupied id)
    (h : r.answer c = (answer, r')) :
    Event.Effect past r r' ⟨.call c, answer⟩ := by
  have hanswer : (r.answer c).1 = answer := by rw [h]
  have hstate : (r.answer c).2 = r' := by rw [h]
  cases c with
  | get kind id =>
    refine .quiet (hstate ▸ Repository.untouched_answer fun h => h) fun a hshows => ?_
    cases kind with
    | alert =>
      match answer, hshows with
      | .ok found, hshows =>
        exact Repository.stored_of_get_alert (hanswer.trans (congrArg Except.ok hshows))
    | report | execution | dashboard | widget | rule => exact hshows.elim
  | list kind scope =>
    refine .quiet (hstate ▸ Repository.untouched_answer fun h => h) fun a hshows => ?_
    cases kind with
    | alert =>
      match answer, hshows with
      | .ok alerts, hshows => exact Repository.stored_of_list_alert hanswer hshows
    | report | execution | dashboard | widget | rule => exact hshows.elim
  | save kind entity =>
    cases kind with
    | alert =>
      obtain ⟨shown, hshown, hnext⟩ := hrule
      exact .saved hshown hnext (hstate ▸ Repository.wrote_save_alert hr entity)
    | report | execution | dashboard | widget | rule =>
      exact .quiet (hstate ▸ Repository.untouched_answer fun h => h) fun _ => False.elim
  | createActive alert =>
    have hspec := Repository.createActive_spec hr alert
    rw [hanswer, hstate] at hspec
    match answer, hspec with
    | .error e, ⟨_, heq⟩ => exact .quiet (heq ▸ .refl _) fun _ => False.elim
    | .ok false, ⟨_, heq⟩ => exact .quiet (heq ▸ .refl _) fun _ => False.elim
    | .ok true, ⟨hno, hw⟩ => exact .opened hrule.1 (hfree _ hrule.1) hno hw

/-! ## Steps -/

section

variable {ε α : Type} {owner owner' : AlertId → RuleId} {before after : List (Thread ε α)}
  {past : List Event} {request : Request} {next : request.Answer → Action ε α}
  {answer : request.Answer} {s s' : AlertRoom}

theorem mem_others {t other : Thread ε α} (h : t ∈ before ∨ t ∈ after) :
    t ∈ before ++ other :: after := by
  rw [List.mem_append, List.mem_cons]
  rcases h with h | h
  · exact .inl h
  · exact .inr (.inr h)

/-- What is left to show of a step in which an action asks for something: what it does to the
stored alerts, what it shows, and what it does to reserved identifiers. -/
theorem Guarded.ask (h : Guarded owner ⟨before ++ ⟨past, .ask request next⟩ :: after, s⟩)
    (inPlace : s'.repository.InPlace)
    (stored : ∀ a, s'.repository.Stored a → a.ruleId = owner' a.id)
    (kept : ∀ id, s.repository.Occupied id →
      s'.repository.Occupied id ∧ owner' id = owner id)
    (shows_ : ∀ a, Event.Shows a ⟨request, answer⟩ →
      s'.repository.Occupied a.id ∧ a.ruleId = owner' a.id)
    (nodup : ((before ++ ⟨⟨request, answer⟩ :: past, next answer⟩ :: after).filterMap
      Thread.reserved).Nodup)
    (own : ∀ id, Event.reserved ⟨request, answer⟩ = some id →
      id ∈ s'.drawn ∧ ¬ s'.repository.Occupied ⟨id⟩)
    (others : ∀ t, t ∈ before ∨ t ∈ after → ∀ id, t.reserved = some id →
      id ∈ s'.drawn ∧ ¬ s'.repository.Occupied ⟨id⟩) :
    Guarded owner' ⟨before ++ ⟨⟨request, answer⟩ :: past, next answer⟩ :: after, s'⟩ := by
  -- all actions but the one that asks are as they were
  have hsplit : ∀ t, t ∈ before ++ ⟨⟨request, answer⟩ :: past, next answer⟩ :: after →
      t = ⟨⟨request, answer⟩ :: past, next answer⟩ ∨ (t ∈ before ∨ t ∈ after) := by
    intro t ht
    simp only [List.mem_append, List.mem_cons] at ht
    rcases ht with ht | rfl | ht
    · exact .inr (.inl ht)
    · exact .inl rfl
    · exact .inr (.inr ht)
  refine ⟨?_, inPlace, stored, ?_, nodup, ?_⟩
  · intro t ht
    rcases hsplit t ht with rfl | ht
    · exact (h.obeys ⟨past, .ask request next⟩ (by simp)).2 answer
    · exact h.obeys t (mem_others ht)
  · intro t ht a ha
    -- shown by the new answer, or before it and then still in its place
    have hshown : Event.Shows a ⟨request, answer⟩ ∨
        s.repository.Occupied a.id ∧ a.ruleId = owner a.id := by
      rcases hsplit t ht with rfl | ht
      · obtain ⟨event, hmem, hs⟩ := ha
        rcases List.mem_cons.mp hmem with rfl | hmem
        · exact .inl hs
        · exact .inr (h.shown ⟨past, .ask request next⟩ (by simp) a ⟨event, hmem, hs⟩)
      · exact .inr (h.shown t (mem_others ht) a ha)
    rcases hshown with hs | ⟨hocc, hrule⟩
    · exact shows_ a hs
    · obtain ⟨hocc', howner⟩ := kept a.id hocc
      exact ⟨hocc', hrule.trans howner.symm⟩
  · intro t ht id hid
    rcases hsplit t ht with rfl | ht
    · exact own id hid
    · exact others t ht id hid

/-- A step that leaves the alerts alone, shows stored ones and gives out no identifier. -/
theorem Guarded.quiet (h : Guarded owner ⟨before ++ ⟨past, .ask request next⟩ :: after, s⟩)
    (hu : s.repository.Untouched s'.repository) (hd : s'.drawn = s.drawn)
    (hshows : ∀ a, Event.Shows a ⟨request, answer⟩ → s.repository.Stored a)
    (hreserved : Event.reserved ⟨request, answer⟩ = none) :
    Guarded owner ⟨before ++ ⟨⟨request, answer⟩ :: past, next answer⟩ :: after, s'⟩ := by
  refine h.ask (hu.inPlace h.inPlace) ?_ ?_ ?_ (nodup_reserved_replace h.nodup hreserved) ?_ ?_
  · exact fun a ha => h.stored a ((hu.stored a).mp ha)
  · exact fun id hid => ⟨(hu.occupied id).mpr hid, rfl⟩
  · intro a ha
    have hstored := hshows a ha
    exact ⟨(hu.occupied _).mpr (hstored.occupied h.inPlace), h.stored a hstored⟩
  · intro id hid
    rw [hreserved] at hid
    cases hid
  · intro t ht id hid
    rw [hd, hu.occupied]
    exact h.free t (mem_others ht) id hid

/-- Giving out an identifier that was never given out. -/
theorem Guarded.draw {next : Uuid → Action ε α} {id : Uuid}
    (h : Guarded owner ⟨before ++ ⟨past, .ask .freshId next⟩ :: after, s⟩)
    (hid : id ∉ s.drawn) (hfree : ¬ s.repository.Occupied ⟨id⟩) :
    Guarded owner ⟨before ++ ⟨⟨.freshId, id⟩ :: past, next id⟩ :: after,
      { s with drawn := id :: s.drawn }⟩ := by
  -- the identifiers that others hold were given out before, so none of them is the new one
  have hother : ∀ t, t ∈ before ∨ t ∈ after → ∀ id', t.reserved = some id' → id' ∈ s.drawn :=
    fun t ht id' hid' => (h.free t (mem_others ht) id' hid').1
  refine h.ask h.inPlace h.stored (fun _ hocc => ⟨hocc, rfl⟩) (fun _ => False.elim)
    ?_ ?_ ?_
  · have hold : ((before ++ (⟨[], .ask .freshId next⟩ : Thread ε α) :: after).filterMap
        Thread.reserved).Nodup := nodup_reserved_replace h.nodup rfl
    rw [List.filterMap_append, List.filterMap_cons_none rfl] at hold
    have hown : (⟨⟨.freshId, id⟩ :: past, next id⟩ : Thread ε α).reserved = some id := rfl
    rw [List.filterMap_append, List.filterMap_cons_some hown, List.nodup_middle]
    refine List.nodup_cons.mpr ⟨fun hmem => hid ?_, hold⟩
    rw [List.mem_append, List.mem_filterMap, List.mem_filterMap] at hmem
    rcases hmem with ⟨t, ht, hr⟩ | ⟨t, ht, hr⟩
    · exact hother t (.inl ht) id hr
    · exact hother t (.inr ht) id hr
  · rintro _ ⟨⟩
    exact ⟨List.mem_cons_self, hfree⟩
  · intro t ht id' hid'
    exact ⟨List.mem_cons_of_mem _ (hother t ht id' hid'),
      (h.free t (mem_others ht) id' hid').2⟩

/-- Saving the next step of an alert that was shown at some time, however long ago. -/
theorem Guarded.save {alert shown : Alert}
    {next : Call.Answer (.save .alert alert) → Action ε α}
    {answer : Call.Answer (.save .alert alert)}
    (h : Guarded owner ⟨before ++ ⟨past, .ask (.call (.save .alert alert)) next⟩ :: after, s⟩)
    (hshown : Shown past shown) (hnext : shown.Next alert)
    (hw : Repository.Wrote alert s.repository s'.repository) (hd : s'.drawn = s.drawn) :
    Guarded owner
      ⟨before ++ ⟨⟨.call (.save .alert alert), answer⟩ :: past, next answer⟩ :: after, s'⟩ := by
  -- the version that was shown stands under the same identifier, so its place is taken already
  obtain ⟨hid, hrule, -⟩ := hnext.keeps
  obtain ⟨hocc, howner⟩ :=
    h.shown ⟨past, .ask (.call (.save .alert alert)) next⟩ (by simp) shown hshown
  rw [← hid] at hocc howner
  rw [← hrule] at howner
  refine h.ask hw.inPlace ?_ ?_
    (fun _ => False.elim) (nodup_reserved_replace h.nodup rfl) (fun _ => nofun) ?_
  · intro a ha
    rcases hw.written a ha with hal | ⟨ha, -⟩
    · rw [hal.ruleId, hal.id, howner]
    · exact h.stored a ha
  · exact fun id hid => ⟨(hw.occupied id).mpr (.inr hid), rfl⟩
  · intro t ht id ht'
    obtain ⟨hdrawn, hfree⟩ := h.free t (mem_others ht) id ht'
    refine ⟨hd ▸ hdrawn, fun hocc' => ?_⟩
    rcases (hw.occupied _).mp hocc' with heq | hocc'
    · exact hfree (heq ▸ hocc)
    · exact hfree hocc'

/-- An identifier just given is free. -/
theorem Guarded.free_of_fresh {id : AlertId}
    (h : Guarded owner ⟨before ++ ⟨past, .ask request next⟩ :: after, s⟩)
    (hpast : past.head? = some ⟨.freshId, id.uuid⟩) : ¬ s.repository.Occupied id := by
  refine (h.free ⟨past, .ask request next⟩ (by simp) id.uuid ?_).2
  rw [Thread.reserved, hpast]
  rfl

/-- Opening an alert. -/
theorem Guarded.create {alert : Alert}
    {next : Call.Answer (.createActive alert) → Action ε α}
    {answer : Call.Answer (.createActive alert)}
    (h : Guarded owner ⟨before ++ ⟨past, .ask (.call (.createActive alert)) next⟩ :: after, s⟩)
    (hpast : past.head? = some ⟨.freshId, alert.id.uuid⟩)
    (hw : Repository.Wrote alert s.repository s'.repository) (hd : s'.drawn = s.drawn) :
    Guarded (fun id => if id = alert.id then alert.ruleId else owner id)
      ⟨before ++ ⟨⟨.call (.createActive alert), answer⟩ :: past, next answer⟩ :: after, s'⟩ := by
  have hreserved : (⟨past, .ask (.call (.createActive alert)) next⟩ : Thread ε α).reserved
      = some alert.id.uuid := by
    rw [Thread.reserved, hpast]
    rfl
  -- nothing stands under the new identifier, so no other place changes its rule
  have hfree : ¬ s.repository.Occupied alert.id := h.free_of_fresh hpast
  refine h.ask hw.inPlace ?_ ?_
    (fun _ => False.elim) (nodup_reserved_replace h.nodup rfl) (fun _ => nofun) ?_
  · intro a ha
    rcases hw.written a ha with hal | ⟨ha, hne⟩
    · rw [if_pos hal.id, hal.ruleId]
    · rw [if_neg hne, h.stored a ha]
  · intro id hid
    refine ⟨(hw.occupied id).mpr (.inr hid), if_neg ?_⟩
    rintro rfl
    exact hfree hid
  · intro t ht id ht'
    obtain ⟨hdrawn, hfree'⟩ := h.free t (mem_others ht) id ht'
    refine ⟨hd ▸ hdrawn, fun hocc => ?_⟩
    rcases (hw.occupied _).mp hocc with heq | hocc
    · exact reserved_ne h.nodup hreserved ht ht' (congrArg Id.uuid heq)
    · exact hfree' hocc

/-- A call of the repository. -/
theorem Guarded.call {c : Call} {next : c.Answer → Action ε α} {answer : c.Answer}
    (h : Guarded owner ⟨before ++ ⟨past, .ask (.call c) next⟩ :: after, s⟩)
    (ha : s.repository.answer c = (answer, s'.repository)) (hd : s'.drawn = s.drawn) :
    ∃ owner', Guarded owner' ⟨before ++ ⟨⟨.call c, answer⟩ :: past, next answer⟩ :: after, s'⟩ ∧
      ∀ id, s.repository.Occupied id → s'.repository.Occupied id ∧ owner' id = owner id := by
  have hrule : alertProtocol past (.call c) := (h.obeys ⟨past, .ask (.call c) next⟩ (by simp)).1
  cases effect_answer h.inPlace hrule (fun _ => h.free_of_fresh) ha with
  | quiet hu hshows =>
    exact ⟨owner, h.quiet hu hd hshows rfl, fun id hid => ⟨(hu.occupied id).mpr hid, rfl⟩⟩
  | saved hshown hnext hw =>
    exact ⟨owner, h.save hshown hnext hw hd, fun id hid => ⟨(hw.occupied id).mpr (.inr hid), rfl⟩⟩
  | opened hfresh hfree _ hw =>
    refine ⟨_, h.create hfresh hw hd, fun id hid => ⟨(hw.occupied id).mpr (.inr hid), if_neg ?_⟩⟩
    rintro rfl
    exact hfree hid

end

/-- Every step keeps the invariant, keeps every place occupied, and keeps the rules of the
identifiers in use. -/
theorem Guarded.step {owner : AlertId → RuleId} {c c' : Scene AlertRoom AlertError AlertResult}
    {event : Option Event} (h : Guarded owner c) (hs : Step alertSetting c event c') :
    ∃ owner', Guarded owner' c' ∧ ∀ id, c.state.repository.Occupied id →
      c'.state.repository.Occupied id ∧ owner' id = owner id := by
  have hobeys := hs.obeys alertSetting_obeys h.obeys
  cases hs with
  | @fork before after past ending s =>
    -- an action that is set going has no past: it was shown nothing and holds no identifier
    have hmem : ∀ t, t ∈ before ++ ((tickForks ending).map Thread.begin ++ after) →
        t.past = [] ∨ t ∈ before ++ ⟨past, .stop ending⟩ :: after := by
      intro t ht
      simp only [List.mem_append, List.mem_map] at ht
      obtain ht | ⟨action, -, rfl⟩ | ht := ht
      · exact .inr (by simp [ht])
      · exact .inl rfl
      · exact .inr (by simp [ht])
    refine ⟨owner, ⟨hobeys, h.inPlace, h.stored, ?_, ?_, ?_⟩, fun id hid => ⟨hid, rfl⟩⟩
    · intro t ht a ha
      rcases hmem t ht with hnil | ht
      · obtain ⟨event, he, -⟩ := ha
        rw [hnil] at he
        exact absurd he List.not_mem_nil
      · exact h.shown t ht a ha
    · have hbegun : ((tickForks ending).map Thread.begin).filterMap Thread.reserved = [] := by
        simp [List.filterMap_map, Thread.reserved, Thread.begin, Function.comp_def]
      refine h.nodup.sublist ?_
      change (List.filterMap _ (before ++ ((tickForks ending).map Thread.begin ++ after))).Sublist _
      rw [List.filterMap_append, List.filterMap_append, hbegun, List.nil_append,
        List.filterMap_append]
      exact (List.Sublist.refl _).append ((List.sublist_cons_self _ _).filterMap _)
    · intro t ht id hid
      rcases hmem t ht with hnil | ht
      · rw [Thread.reserved, hnil] at hid
        cases hid
      · exact h.free t ht id hid
  | @ask before after past request next s s' answer ha =>
    change ∃ owner', Guarded owner' ⟨before ++ (_ :: (after ++ [])), s'⟩ ∧ _
    rw [List.append_nil]
    cases request with
    | call c => exact h.call ha.1 ha.2
    | freshId =>
      obtain ⟨hid, hfree, rfl⟩ := ha
      exact ⟨owner, h.draw hid hfree, fun id hocc => ⟨hocc, rfl⟩⟩
    | now | relational | dataset | api | putArtifact | notify | launch =>
      obtain rfl := ha
      exact ⟨owner, h.quiet (.refl _) rfl (fun _ => False.elim) rfl, fun id hocc => ⟨hocc, rfl⟩⟩

/-- What a step of the evaluators does to the stored alerts. -/
theorem Guarded.effect {owner : AlertId → RuleId} {c c' : Scene AlertRoom AlertError AlertResult}
    {event : Event} (h : Guarded owner c) (hs : Step alertSetting c (some event) c') :
    ∃ t ∈ c.threads, event.Effect t.past c.state.repository c'.state.repository := by
  cases hs with
  | @ask before after past request next s s' answer ha =>
    refine ⟨⟨past, .ask request next⟩, by simp, ?_⟩
    cases request with
    | call c =>
      exact effect_answer h.inPlace (h.obeys ⟨past, .ask (.call c) next⟩ (by simp)).1
        (fun _ => h.free_of_fresh) ha.1
    | freshId =>
      obtain ⟨-, -, rfl⟩ := ha
      exact .quiet (.refl _) fun _ => False.elim
    | now | relational | dataset | api | putArtifact | notify | launch =>
      obtain rfl := ha
      exact .quiet (.refl _) fun _ => False.elim

theorem state_of_fork {c c' : Scene AlertRoom AlertError AlertResult}
    (hs : Step alertSetting c none c') : c'.state = c.state := by
  cases hs
  rfl

/-! ## Runs -/

theorem Guarded.run {owner : AlertId → RuleId} {c c' : Scene AlertRoom AlertError AlertResult}
    {events : List Event} (h : Guarded owner c) (hrun : Run alertSetting c events c') :
    ∃ owner', Guarded owner' c' ∧ ∀ id, c.state.repository.Occupied id →
      c'.state.repository.Occupied id ∧ owner' id = owner id := by
  have hstart : ∃ owner', Guarded owner' c ∧ ∀ id, c.state.repository.Occupied id →
      c.state.repository.Occupied id ∧ owner' id = owner id :=
    ⟨owner, h, fun id hid => ⟨hid, rfl⟩⟩
  refine hrun.invariant (I := fun c' => ∃ owner', Guarded owner' c' ∧
    ∀ id, c.state.repository.Occupied id →
      c'.state.repository.Occupied id ∧ owner' id = owner id) ?_ hstart
  rintro c₁ event c₂ ⟨owner₁, h₁, hkeep₁⟩ hs
  obtain ⟨owner₂, h₂, hkeep₂⟩ := h₁.step hs
  refine ⟨owner₂, h₂, fun id hid => ?_⟩
  obtain ⟨hid₁, heq₁⟩ := hkeep₁ id hid
  obtain ⟨hid₂, heq₂⟩ := hkeep₂ id hid₁
  exact ⟨hid₂, heq₂.trans heq₁⟩

/-- Actions that are about to begin. -/
theorem guarded_begin {actions : List (Action AlertError AlertResult)} {room : AlertRoom}
    (hobeys : ∀ action ∈ actions, action.Obeys alertProtocol (fun _ _ => True) [])
    (hplace : room.repository.InPlace) :
    ∃ owner, Guarded owner (Scene.begin actions room) := by
  have howner : ∀ id, ∃ rule, ∀ a, room.repository.Stored a → a.id = id → a.ruleId = rule := by
    intro id
    by_cases h : ∃ a, room.repository.Stored a ∧ a.id = id
    · obtain ⟨a, ha, hid⟩ := h
      exact ⟨a.ruleId, fun b hb hid' =>
        congrArg Alert.ruleId (hb.eq_of_id hplace ha (hid'.trans hid.symm))⟩
    · exact ⟨default, fun a ha hid => absurd ⟨a, ha, hid⟩ h⟩
  choose owner howner using howner
  have hpast : ∀ t ∈ (Scene.begin actions room).threads, t.past = [] := by
    intro t ht
    obtain ⟨action, -, rfl⟩ := List.mem_map.mp ht
    rfl
  refine ⟨owner, Scene.obeys_begin hobeys, hplace, fun a ha => howner _ a ha rfl, ?_, ?_, ?_⟩
  · rintro t ht a ⟨event, he, -⟩
    rw [hpast t ht] at he
    exact absurd he List.not_mem_nil
  · have hnone : (Scene.begin actions room).threads.filterMap Thread.reserved = [] := by
      refine List.filterMap_eq_nil_iff.mpr fun t ht => ?_
      rw [Thread.reserved, hpast t ht]
      rfl
    rw [hnone]
    exact List.nodup_nil
  · intro t ht id hid
    rw [Thread.reserved, hpast t ht] at hid
    cases hid

/-- Calls that are about to begin. -/
theorem guarded_alertScene (calls : List AlertCall) {room : AlertRoom}
    (hplace : room.repository.InPlace) :
    ∃ owner, Guarded owner (alertScene calls room) := by
  refine guarded_begin (fun action ha => ?_) hplace
  obtain ⟨call, -, rfl⟩ := List.mem_map.mp ha
  exact obeys_action call

end Bulletin
