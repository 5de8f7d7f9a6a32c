import Bulletin.Proofs.GuardedAlerts

/-!
# One active alert

However the calls of evaluators interleave, a rule has at most one active alert. A call may save an
alert as the next step of a version that is long out of date, but the next step of an alert is never
active, and it keeps the identifier and the rule. So only the opening of an alert could do harm, and
that is one step of the repository.

* `single_active_side_by_side`
-/

namespace Bulletin

/-- No rule has two active alerts. -/
def Repository.SingleActive (r : Repository) : Prop :=
  ∀ a b, r.Stored a → r.Stored b → a.status = .active → b.status = .active →
    a.ruleId = b.ruleId → a = b

/-- Saving a record that is not active, under an identifier of its rule, opens nothing. -/
theorem Repository.Wrote.singleActive_of_not_active {alert : Alert} {r r' : Repository}
    (h : Wrote alert r r') (hs : alert.status ≠ .active) (hr : r.SingleActive) :
    r'.SingleActive := by
  intro a b ha hb hactive hactive' hrule
  rcases h.written a ha with hal | ⟨ha, -⟩
  · exact absurd (hal.status ▸ hactive) hs
  rcases h.written b hb with hal | ⟨hb, -⟩
  · exact absurd (hal.status ▸ hactive') hs
  exact hr a b ha hb hactive hactive' hrule

/-- Opening an alert for a rule without an active one leaves the rule with one. -/
theorem Repository.Wrote.singleActive_of_not_hasActive {alert : Alert} {r r' : Repository}
    (h : Wrote alert r r') (hs : ¬ r.HasActive alert.ruleId) (hr : r.SingleActive) :
    r'.SingleActive := by
  intro a b ha hb hactive hactive' hrule
  -- two old records cannot both be active, and an old one cannot be so beside the new one
  rcases h.written a ha with hal | ⟨hsa, -⟩ <;> rcases h.written b hb with hbl | ⟨hsb, -⟩
  · exact ha.eq_of_id h.inPlace hb (hal.id.trans hbl.id.symm)
  · exact absurd ⟨b, hsb, hrule.symm.trans hal.ruleId, hactive'⟩ hs
  · exact absurd ⟨a, hsa, hrule.trans hbl.ruleId, hactive⟩ hs
  · exact hr a b hsa hsb hactive hactive' hrule

/-- What a request does leaves every rule with one active alert at most. -/
theorem Event.Effect.singleActive {past : List Event} {r r' : Repository} {event : Event}
    (h : event.Effect past r r') (hr : r.SingleActive) : r'.SingleActive := by
  cases h with
  | quiet hu _ => exact fun a b ha hb => hr a b ((hu.stored a).mp ha) ((hu.stored b).mp hb)
  | saved _ hnext hw => exact hw.singleActive_of_not_active hnext.keeps.2.2.1 hr
  | opened _ _ hno hw => exact hw.singleActive_of_not_hasActive hno hr

theorem Guarded.singleActive_run {owner : AlertId → RuleId}
    {c c' : Scene AlertRoom AlertError AlertResult} {events : List Event} (h : Guarded owner c)
    (hsingle : c.state.repository.SingleActive) (hrun : Run alertSetting c events c') :
    c'.state.repository.SingleActive := by
  induction hrun with
  | start => exact hsingle
  | @step events c₁ c₂ event hrun hs ih =>
    -- the effect of the last step is that of a step from a guarded scene
    obtain ⟨_, h₁, -⟩ := h.run hrun
    cases event with
    | none =>
      rw [state_of_fork hs]
      exact ih
    | some event =>
      obtain ⟨t, -, heffect⟩ := h₁.effect hs
      exact heffect.singleActive ih

/-! ## Runs -/

/--
**At most one active alert.** Any number of ticks, evaluations, acknowledgements and resolutions run
side by side over a repository of either make in which no rule has two active alerts. Then after
every step of every run:

* no rule has two active alerts;
* an opening answers whether its rule had no active alert just before it. It stores the record if it
  says so and changes nothing if not; it fails only over an unreadable text, and then changes
  nothing;
* whatever is stored is still there after any number of further steps, for the same rule.
-/
theorem single_active_side_by_side {calls : List AlertCall} {room : AlertRoom}
    (hplace : room.repository.InPlace) (hsingle : room.repository.SingleActive)
    {events : List Event} {c : Scene AlertRoom AlertError AlertResult}
    (hrun : Run alertSetting (alertScene calls room) events c) :
    c.state.repository.SingleActive ∧
      (∀ alert answer c', Step alertSetting c (some ⟨.call (.createActive alert), answer⟩) c' →
        match answer with
        | .ok true => ¬ c.state.repository.HasActive alert.ruleId ∧
            c'.state.repository.Occupied alert.id
        | .ok false => c.state.repository.HasActive alert.ruleId ∧
            c'.state.repository = c.state.repository
        | .error _ => ¬ c.state.repository.Readable ∧
            c'.state.repository = c.state.repository) ∧
      (∀ events' c', Run alertSetting c events' c' → ∀ a, c.state.repository.Stored a →
        c'.state.repository.Occupied a.id ∧
          ∀ b, c'.state.repository.Stored b → b.id = a.id → b.ruleId = a.ruleId) := by
  obtain ⟨owner₀, h₀⟩ := guarded_alertScene calls hplace
  obtain ⟨owner, h, -⟩ := h₀.run hrun
  refine ⟨h₀.singleActive_run hsingle hrun, ?_, ?_⟩
  · intro alert answer c' hs
    have hspec := Repository.createActive_spec h.inPlace alert
    rw [answer_of_step hs] at hspec
    match answer, hspec with
    | .ok true, ⟨hno, hw⟩ => exact ⟨hno, (hw.occupied _).mpr (.inl rfl)⟩
    | .ok false, hspec => exact hspec
    | .error _, hspec => exact hspec
  · intro events' c' hrun' a ha
    obtain ⟨owner', h', hkeep⟩ := h.run hrun'
    obtain ⟨hocc, howner⟩ := hkeep a.id (ha.occupied h.inPlace)
    refine ⟨hocc, fun b hb hid => ?_⟩
    rw [h'.stored b hb, hid, howner, h.stored a ha]

/-- Two evaluations of a breached rule over an empty repository: the second finds the alert of the
first. -/
theorem single_active_two_evaluations :
    ∃ events c, Run alertSetting (alertScene [loadCall, loadCall] ⟨.memory .empty, []⟩) events c ∧
      c.state.repository.HasActive anyLoad.id ∧ c.state.repository.SingleActive := by
  have hfree : ¬ (Repository.memory .empty).Occupied ⟨.ofNat 0⟩ := by
    rintro ⟨_, ha, -⟩
    cases ha
  have hfirst : alertSetting.Admits noLoad loadCall.action ⟨.memory .empty, []⟩ :=
    ⟨rfl, rfl, rfl, rfl, ⟨List.not_mem_nil, hfree, rfl⟩, rfl, ⟨rfl, rfl⟩, rfl, ⟨rfl, rfl⟩, rfl,
      trivial⟩
  have hopened : (loadCall.action.run noLoad ⟨.memory .empty, []⟩).2.repository.Stored
      (.triggered ⟨.ofNat 0⟩ anyLoad (.finite .zero) default) := List.mem_singleton.mpr rfl
  have hfree' : ¬ (loadCall.action.run noLoad ⟨.memory .empty, []⟩).2.repository.Occupied
      ⟨.ofNat 1⟩ := by
    rintro ⟨_, ha, hid⟩
    obtain rfl := List.mem_singleton.mp ha
    exact absurd hid (by decide)
  have hsecond : alertSetting.Admits noLoad loadCall.action
      (loadCall.action.run noLoad ⟨.memory .empty, []⟩).2 :=
    ⟨rfl, rfl, rfl, rfl, ⟨by decide, hfree', rfl⟩, rfl, ⟨rfl, rfl⟩, rfl, ⟨rfl, rfl⟩, rfl, trivial⟩
  obtain ⟨events, past, hrun⟩ := Run.alone hfirst [] [.begin loadCall.action] []
  obtain ⟨events', past', hrun'⟩ := Run.alone hsecond
    [⟨past, .stop (loadCall.action.run noLoad ⟨.memory .empty, []⟩).1⟩] [] []
  have hall : Run alertSetting (alertScene [loadCall, loadCall] ⟨.memory .empty, []⟩) _ _ :=
    hrun.trans hrun'
  have hplace : (AlertRoom.mk (.memory .empty) []).repository.InPlace := trivial
  have hnone : (AlertRoom.mk (.memory .empty) []).repository.SingleActive :=
    fun a _ ha => absurd ha List.not_mem_nil
  exact ⟨_, _, hall, ⟨_, hopened, rfl, rfl⟩, (single_active_side_by_side hplace hnone hall).1⟩

end Bulletin
