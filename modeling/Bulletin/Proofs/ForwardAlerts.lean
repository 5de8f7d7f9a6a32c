import Bulletin.Proofs.GuardedAlerts

/-!
# Alerts that move forward

An alert is active, then perhaps acknowledged, and resolved in the end; how it was resolved stays as
it is. A call checks this on the version that it was shown, and saves the next step of that version
later. If the alert was resolved meanwhile, the saving undoes it.

* `forward_iff` — which steps move an alert forward
* `resolved_then_acknowledged` — two calls and an order of their requests in which one does not
* `forward_of_checked` — a room that saves the next step of the stored version only is safe
-/

namespace Bulletin

/-! ## Forward -/

/-- The place of a status on the way of an alert. -/
def AlertStatus.rank : AlertStatus → Nat
  | .active => 0
  | .acknowledged => 1
  | .resolved => 2

namespace Alert

/-- The second version is resolved, in the way of the first. -/
structure SameEnd (a b : Alert) : Prop where
  status : b.status = .resolved
  resolvedAt : b.resolvedAt = a.resolvedAt
  resolutionReason : b.resolutionReason = a.resolutionReason
  autoResolved : b.autoResolved = a.autoResolved

/-- The second version may come after the first. -/
structure Forward (a b : Alert) : Prop where
  status : a.status.rank ≤ b.status.rank
  ended : a.status = .resolved → a.SameEnd b

theorem Forward.refl (a : Alert) : a.Forward a := ⟨Nat.le_refl _, fun h => ⟨h, rfl, rfl, rfl⟩⟩

/-- Anything but an active version may come after a version that is not resolved. -/
theorem forward_of_not_resolved {a b : Alert} (ha : a.status ≠ .resolved)
    (hb : b.status ≠ .active) : a.Forward b := by
  refine ⟨?_, fun h => absurd h ha⟩
  cases hs : a.status <;> cases hs' : b.status <;> simp_all [AlertStatus.rank]

/-- After a resolved version comes one of the same end only. -/
theorem forward_iff_of_resolved {a b : Alert} (ha : a.status = .resolved) :
    a.Forward b ↔ a.SameEnd b := by
  refine ⟨fun h => h.ended ha, fun h => ⟨?_, fun _ => h⟩⟩
  rw [ha, h.status]

end Alert

/-! ## Steps -/

/-- A request moves a stored alert forward, unless it saves another end over a resolved one. -/
theorem Event.Effect.forward_iff {past : List Event} {r r' : Repository} {event : Event}
    (h : event.Effect past r r') (hr : r.InPlace) {a b : Alert} (ha : r.Stored a)
    (hb : r'.Stored b) (hid : b.id = a.id) :
    a.Forward b ↔ ∀ alert answer, event = ⟨.call (.save .alert alert), answer⟩ →
      alert.id = a.id → a.status = .resolved → a.SameEnd b := by
  constructor
  · exact fun hf _ _ _ _ hresolved => hf.ended hresolved
  intro hend
  -- only a saved alert can stand in the place of another
  have hsame : r.Stored b → a.Forward b := fun hb => hb.eq_of_id hr ha hid ▸ .refl b
  cases h with
  | quiet hu _ => exact hsame ((hu.stored b).mp hb)
  | @saved alert shown answer hshown hnext hw =>
    rcases hw.written b hb with halike | ⟨hb, -⟩
    · by_cases hresolved : a.status = .resolved
      · rw [Alert.forward_iff_of_resolved hresolved]
        exact hend alert answer rfl (halike.id.symm.trans hid) hresolved
      · refine Alert.forward_of_not_resolved hresolved ?_
        rw [halike.status]
        exact hnext.keeps.2.2.1
    · exact hsame hb
  | opened _ hfree _ hw =>
    rcases hw.written b hb with halike | ⟨hb, -⟩
    · -- an alert is opened under an identifier that is not in use
      have hocc : r.Occupied a.id := ha.occupied hr
      rw [← hid, halike.id] at hocc
      exact absurd hocc hfree
    · exact hsame hb

/-! ## A room that checks -/

/-- The answers of a room that saves an alert only as the next step of the version stored at that
moment. -/
def AlertRoom.CheckedAnswers (request : Request) (s : AlertRoom) (answer : request.Answer)
    (s' : AlertRoom) : Prop :=
  s.Answers request answer s' ∧
    ∀ alert, request = .call (.save .alert alert) → ∃ a, s.repository.Stored a ∧ a.Next alert

def checkedSetting : Setting AlertRoom AlertError AlertResult :=
  { alertSetting with answers := fun request s => s.CheckedAnswers request }

theorem Step.of_checked {c c' : Scene AlertRoom AlertError AlertResult} {event : Option Event}
    (h : Step checkedSetting c event c') : Step alertSetting c event c' :=
  Step.imp (S := checkedSetting) (T := alertSetting) (fun _ _ _ _ ha => ha.1) rfl rfl h

/-- What happens in a room that checks may happen in any room. -/
theorem Run.of_checked {c c' : Scene AlertRoom AlertError AlertResult} {events : List Event}
    (h : Run checkedSetting c events c') : Run alertSetting c events c' :=
  Run.imp (S := checkedSetting) (T := alertSetting) (fun _ _ _ _ ha => ha.1) rfl rfl h

theorem next_of_checked {c c' : Scene AlertRoom AlertError AlertResult} {alert : Alert}
    {answer : Call.Answer (.save .alert alert)}
    (h : Step checkedSetting c (some ⟨.call (.save .alert alert), answer⟩) c') :
    ∃ a, c.state.repository.Stored a ∧ a.Next alert := by
  cases h with
  | ask ha => exact ha.2 alert rfl

/-- In a room that checks, any later version of a stored alert may come after it. -/
theorem Guarded.forward_of_checked {owner : AlertId → RuleId}
    {c c' : Scene AlertRoom AlertError AlertResult} {events : List Event} (h : Guarded owner c)
    (hrun : Run checkedSetting c events c') {a b : Alert} (ha : c.state.repository.Stored a)
    (hb : c'.state.repository.Stored b) (hid : b.id = a.id) : a.Forward b := by
  induction hrun generalizing b with
  | start => exact hb.eq_of_id h.inPlace ha hid ▸ .refl b
  | @step events c₁ c₂ event hrun hs ih =>
    obtain ⟨_, h₁, hkeep⟩ := h.run hrun.of_checked
    have hstep := hs.of_checked
    cases event with
    | none =>
      rw [state_of_fork hstep] at hb
      exact ih hb hid
    | some event =>
      obtain ⟨t, -, heffect⟩ := h₁.effect hstep
      cases heffect with
      | quiet hu _ => exact ih ((hu.stored b).mp hb) hid
      | saved _ _ hw =>
        rcases hw.written b hb with halike | ⟨hb, -⟩
        · -- the version that was replaced was not resolved, so neither was any before it
          obtain ⟨a₁, ha₁, hnext⟩ := next_of_checked hs
          obtain ⟨hid₁, -, hactive, hopen⟩ := hnext.keeps
          have hforward := ih ha₁ (hid₁.symm.trans (halike.id.symm.trans hid))
          refine Alert.forward_of_not_resolved ?_ (halike.status ▸ hactive)
          exact fun hresolved => hopen (hforward.ended hresolved).status
        · exact ih hb hid
      | opened _ hfree _ hw =>
        rcases hw.written b hb with halike | ⟨hb, -⟩
        · have hocc := (hkeep a.id (ha.occupied h.inPlace)).1
          rw [← hid, halike.id] at hocc
          exact absurd hocc hfree
        · exact ih hb hid

/-! ## Runs -/

/-- An alert that is open. -/
def openAlert : Alert := .triggered default anyLoad (.finite .zero) default

/-- A room with this alert. -/
def openRoom : AlertRoom :=
  ⟨.memory (MemoryRepository.empty.set .alert (Table.empty.save openAlert)), []⟩

/-- One call has been shown an open alert; another resolves it; then the first saves what it made of
the open one. -/
theorem resolved_then_acknowledged :
    ∃ events events' c c' a b,
      Run alertSetting (alertScene [.acknowledge openAlert.id none, .resolve openAlert.id "fixed"]
        openRoom) events c ∧ Run alertSetting c events' c' ∧
      c.state.repository.Stored a ∧ c'.state.repository.Stored b ∧ b.id = a.id ∧
      a.status = .resolved ∧ b.status = .acknowledged ∧ ¬ a.Forward b := by
  let calls : List AlertCall := [.acknowledge openAlert.id none, .resolve openAlert.id "fixed"]
  have hresolve : alertSetting.AdmitsPlay noLoad [0, 1, 1, 1] (alertScene calls openRoom) :=
    ⟨⟨rfl, rfl⟩, rfl, ⟨rfl, rfl⟩, rfl, rfl, rfl, ⟨rfl, rfl⟩, rfl, trivial⟩
  let c := ((alertScene calls openRoom).play noLoad [0, 1, 1, 1]).2
  -- the first call goes on with the alert that it was shown
  have hacknowledge : alertSetting.AdmitsPlay noLoad [0, 0] c :=
    ⟨rfl, rfl, ⟨rfl, rfl⟩, rfl, trivial⟩
  refine ⟨_, _, c, _, { openAlert with
      status := .resolved, resolvedAt := some default, resolutionReason := some "fixed" },
    { openAlert with status := .acknowledged, acknowledgedAt := some default },
    (Joint.play hresolve).turns.run, (Joint.play hacknowledge).turns.run,
    List.mem_singleton.mpr rfl, List.mem_singleton.mpr rfl, rfl, rfl, rfl, ?_⟩
  rintro ⟨hrank, -⟩
  exact absurd hrank (by decide)

/--
**When alerts move forward.** Any number of ticks, evaluations, acknowledgements and resolutions run
side by side over a repository of either make. Then after every step of every run:

* the next step moves a stored alert forward, except that it may save another end, or none, over a
  resolved one;
* whatever is saved is the next step of a version that the saver was shown and that was not
  resolved;
* if the room goes on to check at every saving that this version is still the stored one, every
  alert only moves forward.
-/
theorem alert_forward_iff {calls : List AlertCall} {room : AlertRoom}
    (hplace : room.repository.InPlace) {events : List Event}
    {c : Scene AlertRoom AlertError AlertResult}
    (hrun : Run alertSetting (alertScene calls room) events c) :
    (∀ event c', Step alertSetting c event c' → ∀ a b, c.state.repository.Stored a →
      c'.state.repository.Stored b → b.id = a.id →
      (a.Forward b ↔ ∀ alert answer, event = some ⟨.call (.save .alert alert), answer⟩ →
        alert.id = a.id → a.status = .resolved → a.SameEnd b)) ∧
    (∀ alert answer c', Step alertSetting c (some ⟨.call (.save .alert alert), answer⟩) c' →
      ∃ t ∈ c.threads, ∃ shown, Shown t.past shown ∧ shown.status ≠ .resolved ∧
        shown.Next alert) ∧
    (∀ events' c', Run checkedSetting c events' c' → ∀ a b, c.state.repository.Stored a →
      c'.state.repository.Stored b → b.id = a.id → a.Forward b) := by
  obtain ⟨owner₀, h₀⟩ := guarded_alertScene calls hplace
  obtain ⟨owner, h, -⟩ := h₀.run hrun
  refine ⟨?_, ?_, ?_⟩
  · intro event c' hs a b ha hb hid
    cases event with
    | none =>
      rw [state_of_fork hs] at hb
      have hforward : a.Forward b := hb.eq_of_id h.inPlace ha hid ▸ .refl b
      exact ⟨fun _ _ _ => nofun, fun _ => hforward⟩
    | some event =>
      obtain ⟨t, -, heffect⟩ := h.effect hs
      simp only [Option.some.injEq]
      exact heffect.forward_iff h.inPlace ha hb hid
  · intro alert answer c' hs
    obtain ⟨t, ht, shown, hshown, hnext⟩ := hs.allowed h.obeys
    exact ⟨t, ht, shown, hshown, hnext.keeps.2.2.2, hnext⟩
  · intro events' c' hrun' a b ha hb hid
    exact h.forward_of_checked hrun' ha hb hid

/-- Two calls have been shown an open alert, and the first has saved its acknowledgement. What the
second has made of the open version still moves the alert forward, to its end. -/
theorem acknowledged_then_resolved :
    let calls : List AlertCall := [.acknowledge openAlert.id none, .resolve openAlert.id "fixed"]
    ∃ events c c' a b, Run alertSetting (alertScene calls openRoom) events c ∧
      Step alertSetting c (some ⟨.call (.save .alert b), .ok ()⟩) c' ∧
      c.state.repository.Stored a ∧ c'.state.repository.Stored b ∧
      a.status = .acknowledged ∧ b.status = .resolved ∧ a.Forward b ∧
      ∃ t ∈ c.threads, ∃ shown, Shown t.past shown ∧ shown.status ≠ .resolved ∧
        shown.Next b := by
  intro calls
  have hadmits : alertSetting.AdmitsPlay noLoad [0, 1, 0, 1, 0] (alertScene calls openRoom) :=
    ⟨⟨rfl, rfl⟩, rfl, ⟨rfl, rfl⟩, rfl, rfl, rfl, rfl, rfl, ⟨rfl, rfl⟩, rfl, trivial⟩
  have hrun := (Joint.play hadmits).turns.run
  let c := ((alertScene calls openRoom).play noLoad [0, 1, 0, 1, 0]).2
  let a : Alert := { openAlert with status := .acknowledged, acknowledgedAt := some default }
  let b : Alert := { openAlert with
    status := .resolved, resolvedAt := some default, resolutionReason := some "fixed" }
  have hturn : c.turnAt noLoad 1 = some (⟨_, ⟨.call (.save .alert b), .ok ()⟩⟩, _) := rfl
  have hstep := (Scene.takes_of_turnAt (S := alertSetting) hturn ⟨rfl, rfl⟩ rfl).step
  have ha : c.state.repository.Stored a := List.mem_singleton.mpr rfl
  have hplace : openRoom.repository.InPlace := trivial
  obtain ⟨hforward, hshown, -⟩ := alert_forward_iff hplace hrun
  refine ⟨_, c, _, a, b, hrun, hstep, ha, List.mem_singleton.mpr rfl, rfl, rfl, ?_,
    hshown b _ _ hstep⟩
  refine (hforward _ _ hstep a b ha (List.mem_singleton.mpr rfl) rfl).mpr fun _ _ _ _ h => ?_
  -- what was stored is acknowledged only
  cases h

end Bulletin
