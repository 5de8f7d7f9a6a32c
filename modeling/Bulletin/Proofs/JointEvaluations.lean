import Bulletin.Proofs.GuardedAlerts
import Bulletin.Proofs.RuleEvaluations
import Bulletin.Proofs.RuleParts

/-!
# Evaluations side by side

The evaluations of one tick, each with the rule that it is about, over one repository in memory.
They take turns in any way, and an evaluation that has come to its end keeps its place.

Every rule has a part of the repository, and no evaluation cares for the part of another rule. So
some of the evaluations may be left out, and the others do not see it: they ask the same and are
answered the same. An evaluation with all others left out has the repository to itself.

* `Run.keep` — some of the evaluations, without the others
* `Run.ways` — what has come of an evaluation, as if it had been alone
* `Run.others`, `Run.besides` — what nobody was asked to change
-/

namespace Bulletin

/-! ## Rounds -/

/-- The evaluation of a rule, under way. -/
structure Evaluation where
  rule : AlertRule
  thread : Thread AlertError AlertResult

def Evaluation.begin (evaluator : Evaluator) (rule : AlertRule) : Evaluation :=
  ⟨rule, .begin (ruleAction evaluator rule)⟩

/-- Evaluations under way over a repository in memory, with the identifiers that were given out. -/
structure Round where
  evaluations : List Evaluation
  repository : MemoryRepository
  drawn : List Uuid

namespace Round

/-- The evaluations of some rules, about to begin. -/
def begin (evaluator : Evaluator) (rules : List AlertRule) (r : MemoryRepository)
    (drawn : List Uuid) : Round :=
  ⟨rules.map (Evaluation.begin evaluator), r, drawn⟩

/-- The threads of a round in their room. -/
def scene (t : Round) : Scene AlertRoom AlertError AlertResult :=
  ⟨t.evaluations.map Evaluation.thread, ⟨.memory t.repository, t.drawn⟩⟩

theorem scene_begin (evaluator : Evaluator) (rules : List AlertRule) (r : MemoryRepository)
    (drawn : List Uuid) :
    (begin evaluator rules r drawn).scene
      = Scene.begin (rules.map (ruleAction evaluator)) ⟨.memory r, drawn⟩ := by
  simp only [scene, begin, Scene.begin, List.map_map]
  rfl

/-- One evaluation takes a turn. -/
inductive Advance : Round → Turn → Round → Prop
  | take {before after : List Evaluation} {rule : AlertRule} {past : List Event}
      {request : Request} {next : request.Answer → Action AlertError AlertResult}
      {answer : request.Answer} {r r' : MemoryRepository} {drawn drawn' : List Uuid}
      (h : AlertRoom.Answers request ⟨.memory r, drawn⟩ answer ⟨.memory r', drawn'⟩) :
      Advance ⟨before ++ ⟨rule, ⟨past, .ask request next⟩⟩ :: after, r, drawn⟩
        ⟨past, ⟨request, answer⟩⟩
        ⟨before ++ ⟨rule, ⟨⟨request, answer⟩ :: past, next answer⟩⟩ :: after, r', drawn'⟩

/-- Any number of turns. -/
inductive Run (t : Round) : List Turn → Round → Prop
  | start : Run t [] t
  | advance {turns : List Turn} {t₁ t₂ : Round} {turn : Turn} :
      Run t turns t₁ → Advance t₁ turn t₂ → Run t (turns ++ [turn]) t₂

variable {t t' q q' : Round} {turn : Turn} {turns : List Turn}

/-- A repository in memory stays one. -/
theorem answers_memory {request : Request} {r : MemoryRepository} {drawn : List Uuid}
    {answer : request.Answer} {s : AlertRoom}
    (h : AlertRoom.Answers request ⟨.memory r, drawn⟩ answer s) :
    ∃ r' drawn', s = ⟨.memory r', drawn'⟩ := by
  cases request with
  | call c =>
    obtain ⟨repository, drawn'⟩ := s
    have hs := congrArg Prod.snd h.1
    exact ⟨(r.answer c).2, drawn', congrArg (AlertRoom.mk · drawn') hs.symm⟩
  | freshId => exact ⟨r, _, h.2.2⟩
  | now | relational | dataset | api | putArtifact | notify | launch => exact ⟨r, drawn, h⟩

/-- The turns of a round are those of its threads. -/
theorem takes_scene {c : Scene AlertRoom AlertError AlertResult} :
    Takes alertSetting t.scene turn c ↔ ∃ t', t.Advance turn t' ∧ c = t'.scene := by
  constructor
  · intro h
    obtain ⟨evaluations, r, drawn⟩ := t
    generalize hc : scene ⟨evaluations, r, drawn⟩ = c₀ at h
    cases h with
    | @ask before after past request next s s' answer ha =>
      obtain ⟨hthreads, rfl⟩ := Scene.mk.inj hc
      obtain ⟨first, rest, rfl, rfl, hrest⟩ := List.map_eq_append_iff.mp hthreads
      obtain ⟨⟨rule, _⟩, last, rfl, rfl, rfl⟩ := List.map_eq_cons_iff.mp hrest
      obtain ⟨r', drawn', rfl⟩ := answers_memory ha
      refine ⟨_, .take ha, ?_⟩
      unfold scene
      rw [List.map_append, List.map_cons]
      exact congrArg (fun after => Scene.mk (first.map Evaluation.thread ++ _ :: after) _)
        (List.append_nil _)
  · rintro ⟨t', ha, rfl⟩
    cases ha with
    | @take before after rule past request next answer r r' drawn drawn' ha =>
      unfold scene
      rw [List.map_append, List.map_cons, List.map_append, List.map_cons]
      have htakes : Takes alertSetting
          ⟨before.map Evaluation.thread ++ ⟨past, .ask request next⟩ :: after.map Evaluation.thread,
            ⟨.memory r, drawn⟩⟩ ⟨past, ⟨request, answer⟩⟩
          ⟨before.map Evaluation.thread ++ ⟨⟨request, answer⟩ :: past, next answer⟩ ::
            (after.map Evaluation.thread ++ []), ⟨.memory r', drawn'⟩⟩ := .ask ha
      rw [List.append_nil] at htakes
      exact htakes

theorem joint_scene {c : Scene AlertRoom AlertError AlertResult} :
    Joint alertSetting t.scene turns c ↔ ∃ t', t.Run turns t' ∧ c = t'.scene := by
  constructor
  · intro h
    induction h with
    | start => exact ⟨t, .start, rfl⟩
    | take _ ht ih =>
      obtain ⟨t₁, hrun, rfl⟩ := ih
      obtain ⟨t₂, ha, rfl⟩ := takes_scene.mp ht
      exact ⟨t₂, hrun.advance ha, rfl⟩
  · rintro ⟨t', h, rfl⟩
    induction h with
    | start => exact .start
    | advance _ ha ih => exact ih.take (takes_scene.mpr ⟨_, ha, rfl⟩)

/-! ## Everybody to their own part -/

/-- The invariant of evaluations side by side: each of them asks for the part of its rule only, and
was shown no other. -/
structure Apart (t : Round) : Prop where
  guarded : ∃ owner, Guarded owner t.scene
  own : ∀ e ∈ t.evaluations,
    e.thread.rest.Obeys (ownProtocol e.rule.id) (fun _ _ => True) e.thread.past
  within : ∀ e ∈ t.evaluations, ∀ event ∈ e.thread.past, event.Within
  distinct : (t.evaluations.map fun e => e.rule.id).Nodup

theorem apart_begin (evaluator : Evaluator) {rules : List AlertRule} (r : MemoryRepository)
    (drawn : List Uuid) (h : (rules.map AlertRule.id).Nodup) :
    (begin evaluator rules r drawn).Apart := by
  have hbegun : ∀ e ∈ (begin evaluator rules r drawn).evaluations,
      ∃ rule, e = .begin evaluator rule := by
    intro e he
    obtain ⟨rule, -, rfl⟩ := List.mem_map.mp he
    exact ⟨rule, rfl⟩
  refine ⟨?_, ?_, ?_, ?_⟩
  · rw [scene_begin]
    refine guarded_begin (fun action ha => ?_) trivial
    obtain ⟨rule, -, rfl⟩ := List.mem_map.mp ha
    exact obeys_ruleAction evaluator rule
  · intro e he
    obtain ⟨rule, rfl⟩ := hbegun e he
    exact (obeys_own_outcomeOf evaluator rule []).bind fun _ _ => trivial
  · intro e he event hevent
    obtain ⟨rule, rfl⟩ := hbegun e he
    exact absurd hevent List.not_mem_nil
  · rw [begin, List.map_map]
    exact h

section

variable {before after : List Evaluation} {rule : AlertRule} {past : List Event}
  {request : Request} {next : request.Answer → Action AlertError AlertResult}
  {r : MemoryRepository} {drawn : List Uuid}

theorem Apart.concerns
    (h : Apart ⟨before ++ ⟨rule, ⟨past, .ask request next⟩⟩ :: after, r, drawn⟩) :
    request.Concerns rule.id :=
  (h.own ⟨rule, ⟨past, .ask request next⟩⟩ (by simp)).1
    (h.within ⟨rule, ⟨past, .ask request next⟩⟩ (by simp))

/-- An alert is only saved in the place of one of its rule, or in a free place. -/
theorem Apart.place {c : Call} {next : c.Answer → Action AlertError AlertResult}
    (h : Apart ⟨before ++ ⟨rule, ⟨past, .ask (.call c) next⟩⟩ :: after, r, drawn⟩) (alert : Alert)
    (hc : c.writes? = some alert) :
    ∀ a ∈ r.alerts.entities, a.id = alert.id → a.ruleId = alert.ruleId := by
  obtain ⟨owner, hguarded⟩ := h.guarded
  unfold scene at hguarded
  rw [List.map_append, List.map_cons] at hguarded
  have hasks := hguarded.obeys ⟨past, .ask (.call c) next⟩ (by simp)
  intro a ha hid
  cases c with
  | get kind id => cases kind <;> cases hc
  | list kind scope => cases kind <;> cases hc
  | save kind entity =>
    cases kind with
    | alert =>
      cases hc
      -- it is the next step of one that was shown, and the rule of an identifier never changes
      obtain ⟨shown, hshown, hnext⟩ := hasks.1
      obtain ⟨-, howner⟩ :=
        hguarded.shown ⟨past, .ask (.call (.save .alert alert)) next⟩ (by simp) shown hshown
      obtain ⟨hkept, hrule, -⟩ := hnext.keeps
      rw [hguarded.stored a ha, hid, hkept, hrule, howner]
    | report | execution | dashboard | widget | rule => cases hc
  | createActive entity =>
    cases hc
    exact absurd ⟨a, ha, hid⟩ (hguarded.free_of_fresh hasks.1.1)

variable {answer : request.Answer} {r' : MemoryRepository} {drawn' : List Uuid}

/-- What the repository does in a turn. -/
theorem through_answers
    (ha : AlertRoom.Answers request ⟨.memory r, drawn⟩ answer ⟨.memory r', drawn'⟩) :
    r.Through [⟨request, answer⟩] r' := by
  cases request with
  | call c =>
    have hanswer : (r.answer c).1 = answer := congrArg Prod.fst ha.1
    have hstate : Repository.memory (r.answer c).2 = .memory r' := congrArg Prod.snd ha.1
    exact .call (Prod.ext hanswer (Repository.memory.inj hstate)) .nil
  | freshId =>
    obtain ⟨-, hfree, hs⟩ := ha
    obtain ⟨hr, -⟩ := AlertRoom.mk.inj hs
    cases hr
    exact .other hfree .nil
  | now | relational | dataset | api | putArtifact | notify | launch =>
    cases ha
    exact .other trivial .nil

/-- A turn leaves the parts of the other rules alone. -/
theorem Apart.others
    (h : Apart ⟨before ++ ⟨rule, ⟨past, .ask request next⟩⟩ :: after, r, drawn⟩)
    (ha : AlertRoom.Answers request ⟨.memory r, drawn⟩ answer ⟨.memory r', drawn'⟩)
    {other : RuleId} (hne : other ≠ rule.id) : MemoryRepository.AgreeOn other r r' := by
  cases through_answers ha with
  | call hc hnil =>
    cases hnil
    obtain rfl : (r.answer _).2 = r' := congrArg Prod.snd hc
    exact MemoryRepository.agreeOn_answer_of_other h.concerns hne.symm h.place
  | other _ hnil =>
    cases hnil
    exact .refl other r

/-- A turn leaves all that is neither a rule nor an alert alone. -/
theorem Apart.besides
    (h : Apart ⟨before ++ ⟨rule, ⟨past, .ask request next⟩⟩ :: after, r, drawn⟩)
    (ha : AlertRoom.Answers request ⟨.memory r, drawn⟩ answer ⟨.memory r', drawn'⟩) :
    r.SameBesides r' := by
  cases through_answers ha with
  | call hc hnil =>
    cases hnil
    obtain rfl : (r.answer _).2 = r' := congrArg Prod.snd hc
    exact MemoryRepository.sameBesides_answer h.concerns
  | other _ hnil =>
    cases hnil
    exact .refl r

/-- No identifier gets free. -/
theorem free_of_answers
    (ha : AlertRoom.Answers request ⟨.memory r, drawn⟩ answer ⟨.memory r', drawn'⟩) {id : Uuid}
    (hfree : r'.Free id) : r.Free id := by
  cases through_answers ha with
  | call hc hnil =>
    cases hnil
    obtain rfl : (r.answer _).2 = r' := congrArg Prod.snd hc
    exact (MemoryRepository.free_answer.mp hfree).1
  | other _ hnil =>
    cases hnil
    exact hfree

/-- No identifier is taken back. -/
theorem drawn_of_answers
    (ha : AlertRoom.Answers request ⟨.memory r, drawn⟩ answer ⟨.memory r', drawn'⟩) {id : Uuid}
    (hid : id ∈ drawn) : id ∈ drawn' := by
  cases request with
  | call c =>
    obtain rfl : drawn' = drawn := ha.2
    exact hid
  | freshId =>
    obtain ⟨-, hdrawn⟩ := AlertRoom.mk.inj ha.2.2
    exact hdrawn ▸ List.mem_cons_of_mem _ hid
  | now | relational | dataset | api | putArtifact | notify | launch =>
    cases ha
    exact hid

theorem within_answers
    (ha : AlertRoom.Answers request ⟨.memory r, drawn⟩ answer ⟨.memory r', drawn'⟩) :
    Event.Within ⟨request, answer⟩ := by
  cases request with
  | call c =>
    have hanswer : (r.answer c).1 = answer := congrArg Prod.fst ha.1
    exact hanswer ▸ r.within_answer c
  | freshId | now | relational | dataset | api | putArtifact | notify | launch => trivial

end

/-- Every turn keeps the invariant. -/
theorem Apart.advance (h : t.Apart) (ha : t.Advance turn t') : t'.Apart := by
  obtain ⟨owner, hguarded⟩ := h.guarded
  have hstep := (takes_scene.mpr ⟨t', ha, rfl⟩).step
  cases ha with
  | @take before after rule past request next answer r r' drawn drawn' ha =>
    have hsplit : ∀ e ∈ before ++ ⟨rule, ⟨⟨request, answer⟩ :: past, next answer⟩⟩ :: after,
        e = ⟨rule, ⟨⟨request, answer⟩ :: past, next answer⟩⟩ ∨
          e ∈ before ++ ⟨rule, ⟨past, .ask request next⟩⟩ :: after := by
      intro e he
      simp only [List.mem_append, List.mem_cons] at he ⊢
      tauto
    obtain ⟨owner', hguarded', -⟩ := hguarded.step hstep
    refine ⟨⟨owner', hguarded'⟩, ?_, ?_, ?_⟩
    · intro e he
      rcases hsplit e he with rfl | he
      · exact (h.own ⟨rule, ⟨past, .ask request next⟩⟩ (by simp)).2 answer
      · exact h.own e he
    · intro e he
      rcases hsplit e he with rfl | he
      · exact List.forall_mem_cons.mpr
          ⟨within_answers ha, h.within ⟨rule, ⟨past, .ask request next⟩⟩ (by simp)⟩
      · exact h.within e he
    · have hdistinct := h.distinct
      rw [List.map_append, List.map_cons] at hdistinct ⊢
      exact hdistinct

theorem Apart.run (h : t.Apart) (hrun : t.Run turns t') : t'.Apart := by
  induction hrun with
  | start => exact h
  | advance _ ha ih => exact ih.advance ha

/-! ## Some of the evaluations -/

/-- A room has the parts of some rules in common with another one, and no more identifiers in
use. -/
structure Covers (p : RuleId → Bool) (r : MemoryRepository) (drawn : List Uuid)
    (qr : MemoryRepository) (names : List Uuid) : Prop where
  agree : ∀ rule, p rule = true → MemoryRepository.AgreeOn rule r qr
  free : ∀ id, r.Free id → qr.Free id
  drawn : ∀ id ∈ names, id ∈ drawn

/-- The evaluations of some rules of a round, over a repository that has their parts. -/
structure Keeps (p : RuleId → Bool) (t q : Round) : Prop where
  evaluations : q.evaluations = t.evaluations.filter fun e => p e.rule.id
  covers : Covers p t.repository t.drawn q.repository q.drawn

section

variable {p : RuleId → Bool} {before after before' after' : List Evaluation} {rule : AlertRule}
  {past : List Event} {request : Request}
  {next : request.Answer → Action AlertError AlertResult} {answer : request.Answer}
  {r r' qr : MemoryRepository} {drawn drawn' names : List Uuid}

/-- An evaluation is answered alike without the others. -/
theorem Covers.answers
    (ht : Apart ⟨before ++ ⟨rule, ⟨past, .ask request next⟩⟩ :: after, r, drawn⟩)
    (hq : Apart ⟨before' ++ ⟨rule, ⟨past, .ask request next⟩⟩ :: after', qr, names⟩)
    (hp : p rule.id = true) (h : Covers p r drawn qr names)
    (ha : AlertRoom.Answers request ⟨.memory r, drawn⟩ answer ⟨.memory r', drawn'⟩) :
    ∃ qr' names', AlertRoom.Answers request ⟨.memory qr, names⟩ answer ⟨.memory qr', names'⟩ ∧
      Covers p r' drawn' qr' names' := by
  cases request with
  | call c =>
    obtain ⟨hcall, hdrawn⟩ := ha
    obtain rfl : (r.answer c).1 = answer := congrArg Prod.fst hcall
    have hstate : Repository.memory (r.answer c).2 = .memory r' := congrArg Prod.snd hcall
    obtain rfl := Repository.memory.inj hstate
    obtain rfl : drawn' = drawn := hdrawn
    obtain ⟨hsame, hagree⟩ := (h.agree rule.id hp).answer ht.concerns
    have hqa : AlertRoom.Answers (.call c) ⟨.memory qr, names⟩ (r.answer c).1
        ⟨.memory (qr.answer c).2, names⟩ := ⟨Prod.ext hsame rfl, rfl⟩
    refine ⟨_, names, hqa, ?_, ?_, h.drawn⟩
    · intro other hother
      by_cases hne : other = rule.id
      · exact hne ▸ hagree
      · exact ((ht.others ⟨hcall, rfl⟩ hne).symm.trans (h.agree other hother)).trans
          (hq.others hqa hne)
    · intro id hfree
      obtain ⟨hfree, hstored⟩ := MemoryRepository.free_answer.mp hfree
      exact MemoryRepository.free_answer.mpr ⟨h.free id hfree, hsame ▸ hstored⟩
  | freshId =>
    obtain ⟨hid, hfree, hs⟩ := ha
    obtain ⟨hr, hdrawn⟩ := AlertRoom.mk.inj hs
    cases hr
    cases hdrawn
    refine ⟨qr, answer :: names, ⟨fun hmem => hid (h.drawn _ hmem), h.free _ hfree, rfl⟩,
      h.agree, h.free, ?_⟩
    intro id hmem
    rcases List.mem_cons.mp hmem with rfl | hmem
    · exact List.mem_cons_self
    · exact List.mem_cons_of_mem _ (h.drawn id hmem)
  | now | relational | dataset | api | putArtifact | notify | launch =>
    cases ha
    exact ⟨qr, names, rfl, h⟩

/-- The turn of an evaluation that is left out makes no difference to the others. -/
theorem Covers.of_other
    (ht : Apart ⟨before ++ ⟨rule, ⟨past, .ask request next⟩⟩ :: after, r, drawn⟩)
    (hp : ¬ p rule.id = true) (h : Covers p r drawn qr names)
    (ha : AlertRoom.Answers request ⟨.memory r, drawn⟩ answer ⟨.memory r', drawn'⟩) :
    Covers p r' drawn' qr names := by
  refine ⟨fun other hother => ?_, fun id hfree => h.free id (free_of_answers ha hfree), ?_⟩
  · exact (ht.others ha fun he => hp (he ▸ hother)).symm.trans (h.agree other hother)
  · exact fun id hmem => drawn_of_answers ha (h.drawn id hmem)

end

/-- A turn of an evaluation that is left out is not seen, and one of the others is a turn there
too. -/
theorem Advance.keep {p : RuleId → Bool} (ht : t.Apart) (hq : q.Apart) (hkeeps : Keeps p t q)
    (ha : t.Advance turn t') : ∃ turns q', q.Run turns q' ∧ Keeps p t' q' := by
  obtain ⟨evaluations, qr, names⟩ := q
  cases ha with
  | @take before after rule past request next answer r r' drawn drawn' ha =>
    obtain ⟨hevaluations, hcovers⟩ := hkeeps
    dsimp only at hevaluations hcovers
    subst hevaluations
    rw [List.filter_append] at hq ⊢
    by_cases hp : p rule.id = true
    · have hkept : ∀ thread, (⟨rule, thread⟩ :: after).filter (fun e => p e.rule.id)
          = ⟨rule, thread⟩ :: after.filter fun e => p e.rule.id :=
        fun _ => List.filter_cons_of_pos hp
      rw [hkept] at hq ⊢
      obtain ⟨qr', names', hqa, hcovers'⟩ := hcovers.answers ht hq hp ha
      refine ⟨_, _, Run.start.advance (.take hqa), ?_, hcovers'⟩
      rw [List.filter_append, hkept]
    · have hleft : ∀ thread, (⟨rule, thread⟩ :: after).filter (fun e => p e.rule.id)
          = after.filter fun e => p e.rule.id := fun _ => List.filter_cons_of_neg hp
      refine ⟨_, _, .start, ?_, hcovers.of_other ht hp ha⟩
      rw [List.filter_append, hleft, hleft]

theorem Run.trans {t₁ t₂ : Round} {turns' : List Turn} (h : t.Run turns t₁)
    (h' : t₁.Run turns' t₂) : t.Run (turns ++ turns') t₂ := by
  induction h' with
  | start => rw [List.append_nil]; exact h
  | advance _ ha ih => rw [← List.append_assoc]; exact ih.advance ha

/-- What some evaluations do among others they may do without them. -/
theorem Run.keep {p : RuleId → Bool} (ht : t.Apart) (hq : q.Apart) (hkeeps : Keeps p t q)
    (h : t.Run turns t') : ∃ turns q', q.Run turns q' ∧ Keeps p t' q' := by
  induction h with
  | start => exact ⟨[], q, .start, hkeeps⟩
  | advance hrun ha ih =>
    obtain ⟨turns, q₁, hq₁, hkeeps₁⟩ := ih
    obtain ⟨turns', q₂, hq₂, hkeeps₂⟩ := ha.keep (ht.run hrun) (hq.run hq₁) hkeeps₁
    exact ⟨_, q₂, hq₁.trans hq₂, hkeeps₂⟩

/-- Everybody keeps their place. -/
theorem Run.rules (h : t.Run turns t') :
    t'.evaluations.map Evaluation.rule = t.evaluations.map Evaluation.rule := by
  induction h with
  | start => rfl
  | advance _ ha ih =>
    cases ha with
    | take =>
      rw [← ih, List.map_append, List.map_append, List.map_cons, List.map_cons]

section

variable {evaluator : Evaluator} {rules : List AlertRule} {r : MemoryRepository}
  {drawn : List Uuid}

/-- Every rule has its evaluation. -/
theorem Run.evaluated (h : (begin evaluator rules r drawn).Run turns t) :
    t.evaluations.map Evaluation.rule = rules := by
  rw [h.rules, begin, List.map_map]
  exact List.map_id rules

theorem Run.mem_rules (h : (begin evaluator rules r drawn).Run turns t) {e : Evaluation}
    (he : e ∈ t.evaluations) : e.rule ∈ rules :=
  h.evaluated ▸ List.mem_map_of_mem he

theorem Run.exists_evaluation (h : (begin evaluator rules r drawn).Run turns t) {rule : AlertRule}
    (hrule : rule ∈ rules) : ∃ e ∈ t.evaluations, e.rule = rule := by
  rw [← h.evaluated] at hrule
  exact List.mem_map.mp hrule

/-- It has one. -/
theorem Run.eq_of_rule (hrules : (rules.map AlertRule.id).Nodup)
    (h : (begin evaluator rules r drawn).Run turns t) {e e' : Evaluation}
    (he : e ∈ t.evaluations) (he' : e' ∈ t.evaluations) (hsame : e.rule = e'.rule) : e = e' := by
  have hdistinct : (t.evaluations.map Evaluation.rule).Nodup := h.evaluated ▸ hrules.of_map
  exact List.inj_on_of_nodup_map hdistinct he he' hsame

end

/-! ## One evaluation -/

/-- An evaluation that is alone has the repository to itself. -/
theorem Run.alone {rule : AlertRule} {action : Action AlertError AlertResult}
    (hq : q.evaluations = [⟨rule, .begin action⟩]) (h : q.Run turns q') :
    ∃ past rest, q'.evaluations = [⟨rule, ⟨past, rest⟩⟩] ∧
      q.repository.Through past.reverse q'.repository ∧
      ∀ events ending, rest.Yields events ending →
        action.Yields (past.reverse ++ events) ending := by
  induction h with
  | start => exact ⟨[], action, hq, .nil, fun _ _ h => h⟩
  | advance _ ha ih =>
    obtain ⟨past, rest, hone, hthrough, hyields⟩ := ih
    cases ha with
    | @take before after rule' past' request next answer r r' drawn drawn' ha =>
      rcases List.append_eq_singleton_iff.mp hone with ⟨rfl, hone⟩ | ⟨-, hone⟩
      · obtain ⟨hthread, rfl⟩ := List.cons.inj hone
        cases hthread
        refine ⟨⟨request, answer⟩ :: past, next answer, rfl, ?_, fun events ending hnext => ?_⟩
        · rw [List.reverse_cons]
          exact MemoryRepository.through_append.mpr ⟨r, hthrough, through_answers ha⟩
        · rw [List.reverse_cons, List.append_assoc]
          exact hyields _ _ (.ask hnext)
      · cases hone

/-- One rule picked out of several. -/
theorem filter_rule {rules : List AlertRule} {rule : AlertRule}
    (hrules : (rules.map AlertRule.id).Nodup) (hrule : rule ∈ rules) :
    rules.filter (fun other => decide (other.id = rule.id)) = [rule] := by
  obtain ⟨before, after, rfl⟩ := List.append_of_mem hrule
  rw [List.map_append, List.map_cons, List.nodup_middle, List.nodup_cons, List.mem_append] at hrules
  obtain ⟨hne, -⟩ := hrules
  have hno : ∀ others : List AlertRule, rule.id ∉ others.map AlertRule.id →
      others.filter (fun other => decide (other.id = rule.id)) = [] := by
    intro others hothers
    refine List.filter_eq_nil_iff.mpr fun other ho he => hothers ?_
    exact of_decide_eq_true he ▸ List.mem_map_of_mem ho
  rw [List.filter_append, List.filter_cons_of_pos (by simp), hno before fun h => hne (.inl h),
    hno after fun h => hne (.inr h)]
  rfl

variable {evaluator : Evaluator} {rules : List AlertRule} {r : MemoryRepository}
  {drawn : List Uuid} {rule : AlertRule} {past : List Event}
  {ending : Ending AlertError AlertResult}

/-- An evaluation among others does what it would do if it had the repository to itself. -/
theorem Run.performs (hrules : (rules.map AlertRule.id).Nodup)
    (h : (begin evaluator rules r drawn).Run turns t)
    (he : ⟨rule, ⟨past, .stop ending⟩⟩ ∈ t.evaluations) :
    ∃ own, (ruleAction evaluator rule).Performs r past.reverse ending own ∧
      MemoryRepository.AgreeOn rule.id own t.repository := by
  let p (id : RuleId) : Bool := decide (id = rule.id)
  let q : Round := begin evaluator [rule] r drawn
  have hone : ([rule].map AlertRule.id).Nodup := List.nodup_singleton rule.id
  have hkeeps : Keeps p (begin evaluator rules r drawn) q := by
    refine ⟨?_, fun _ _ => .refl _ r, fun _ => id, fun _ => id⟩
    rw [begin, List.filter_map]
    exact congrArg (List.map (Evaluation.begin evaluator))
      (filter_rule hrules (h.mem_rules he)).symm
  obtain ⟨_, q', hq, hevaluations, hcovers⟩ := Run.keep (apart_begin evaluator r drawn hrules)
    (apart_begin evaluator r drawn hone) hkeeps h
  obtain ⟨past', rest, hq', hthrough, hyields⟩ := Run.alone rfl hq
  -- the only evaluation that is left is the one in question
  have hmem : (⟨rule, ⟨past, .stop ending⟩⟩ : Evaluation) ∈ q'.evaluations := by
    rw [hevaluations]
    exact List.mem_filter.mpr ⟨he, decide_eq_true rfl⟩
  rw [hq', List.mem_singleton] at hmem
  obtain ⟨-, hthread⟩ := Evaluation.mk.inj hmem
  cases hthread
  have hends := hyields [] ending .stop
  rw [List.append_nil] at hends
  exact ⟨q'.repository, ⟨hends, hthrough⟩, (hcovers.agree rule.id (decide_eq_true rfl)).symm⟩

/-- What has come of an evaluation: its source has broken down, or there is an outcome. -/
theorem Run.ways (hrules : (rules.map AlertRule.id).Nodup)
    (h : (begin evaluator rules r drawn).Run turns t)
    (he : ⟨rule, ⟨past, .stop ending⟩⟩ ∈ t.evaluations) :
    ∃ own, MemoryRepository.AgreeOn rule.id own t.repository ∧
      ((∃ outcome, ending = .value (.outcome outcome) ∧
          evaluator.Ways rule r past.reverse (.value outcome) own) ∨
        ∃ crash, ending = .crash crash ∧
          evaluator.Ways rule r past.reverse (.crash crash) own) := by
  obtain ⟨own, hperforms, hagree⟩ := h.performs hrules he
  refine ⟨own, hagree, ?_⟩
  rcases Action.performs_bind_cases hperforms with ⟨first, last, outcome, m, hpast, hfirst, hlast⟩ |
    ⟨e, -, hfirst⟩ | ⟨crash, rfl, hfirst⟩
  · obtain ⟨rfl, rfl, rfl⟩ := Action.performs_pure.mp hlast
    rw [hpast, List.append_nil]
    exact .inl ⟨outcome, rfl, outcomeOf_ways hfirst⟩
  · exact (outcomeOf_ways hfirst).no_error.elim
  · exact .inr ⟨crash, rfl, outcomeOf_ways hfirst⟩

/-! ## What nobody was asked to change -/

/-- The parts of rules that are not evaluated stay as they are. -/
theorem Run.others (ht : t.Apart) (h : t.Run turns t') {other : RuleId}
    (hother : other ∉ t.evaluations.map fun e => e.rule.id) :
    MemoryRepository.AgreeOn other t.repository t'.repository := by
  induction h with
  | start => exact .refl other _
  | advance hrun ha ih =>
    have happart := ht.run hrun
    have hrules := congrArg (List.map AlertRule.id) hrun.rules
    rw [List.map_map, List.map_map] at hrules
    cases ha with
    | @take before after rule past request next answer r r' drawn drawn' ha =>
      refine ih.trans (happart.others ha fun he => hother ?_)
      refine hrules ▸ List.mem_map.mpr ⟨⟨rule, ⟨past, .ask request next⟩⟩, by simp, he.symm⟩

/-- No identifier gets free. -/
theorem Run.free (h : t.Run turns t') {id : Uuid} (hfree : t'.repository.Free id) :
    t.repository.Free id := by
  induction h with
  | start => exact hfree
  | advance _ ha ih =>
    cases ha with
    | take ha => exact ih (free_of_answers ha hfree)

/-- What is neither a rule nor an alert stays as it is. -/
theorem Run.besides (ht : t.Apart) (h : t.Run turns t') :
    t.repository.SameBesides t'.repository := by
  induction h with
  | start => exact .refl _
  | advance hrun ha ih =>
    have happart := ht.run hrun
    cases ha with
    | take ha => exact ih.trans (happart.besides ha)

end Round

end Bulletin
