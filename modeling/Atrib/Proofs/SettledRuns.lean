import Atrib.Proofs.SignedOutcomes

/-!
# Runs that come to their end

A run of a gated action returns, with a signed outcome, if what it is started with
can be canonicalised and each answer is one that it can go on with: a time that is
a date, a policy that has digests, and something of the action that can be
recorded. Of what it has signed only the signatures are left to be verified.
-/

namespace Atrib.ActionGate

open Lib (Async JsValue bind_eq_ok)
open Lib.Async (Asks Ends Returns Settles ends_ask ends_ask_bind ends_bind ends_catching
  ends_lift_bind ends_pure)

variable {ρ : Type} {P : Platform ρ}

/-- An answer that a run can go on with. -/
def Favourable (P : Platform ρ) : (op : Op) → Except Thrown (Ans ρ op) → Prop
  | .now, .ok nowMs => ∃ timestamp, P.toISOString (.finite nowMs) = .ok timestamp
  | .evaluate _ _, .ok policy => Judged P policy
  | .execute, answer => Recordable P answer
  | op, answer => Harmless op answer

theorem Favourable.harmless {op : Op} {answer : Except Thrown (Ans ρ op)} (hop : Plain op)
    (h : Favourable P op answer) : Harmless op answer := by
  cases op with
  | execute => exact hop.elim
  | now | evaluate =>
      cases answer with
      | ok => exact trivial
      | error => exact h
  | _ => cases answer <;> exact h

theorem settles_of_returns {α : Type} {Q Q' : α → Prop} {c : Gate ρ α}
    (h : Returns Harmless Q c) (h' : Asks Plain (AnyAnswer ρ) Q' c) :
    Settles (Favourable P) (fun a => Q a ∧ Q' a) c :=
  .of_returns h h' fun _ _ hop hanswer => hanswer.harmless hop

/-! ## Parts of a run -/

theorem settles_ask {op : Op} (hop : Plain op)
    (hrecord : ∀ record sidecar, op ≠ .onRecord record sidecar) :
    Settles (Favourable P) (fun _ => True) (Async.ask op : Gate ρ (Ans ρ op)) :=
  fun answers result hends hanswers =>
    have ⟨a, ha, _⟩ := settles_of_returns (returns_ask hrecord)
      (Asks.ask (Q := fun _ => True) hop fun _ _ => trivial) answers result hends hanswers
    ⟨a, ha, trivial⟩

theorem settles_contextIdOf (options : RunOptions) :
    Settles (Favourable P) (fun _ => True) (contextIdOf (ρ := ρ) options) := by
  unfold contextIdOf
  cases options.contextId with
  | some contextId => exact Settles.pure trivial
  | none => exact Settles.bind (settles_ask trivial nofun) fun _ _ => Settles.pure trivial

/-- An outcome follows a decision, and can be recorded. -/
theorem settles_resolveOutcomeInput {state : String} (hstate : state = "allowed" ∨
    state = "blocked" ∨ state = "escalated" ∨ state = "policy_error") :
    Settles (Favourable P) (fun input => Recorded P input ∧ Accords (.string state) input)
      (resolveOutcomeInput (.string state) (Async.ask Op.execute)) := by
  have hclosed : ∀ status, Recorded P ({ status, executed := false } : OutcomeInput ρ) :=
    fun _ => ⟨nofun, nofun⟩
  intro answers result hends hanswers
  rcases ends_resolveOutcomeInput hstate hends with rfl | ⟨rfl, answer, rfl, rfl⟩
  · rcases hstate with rfl | rfl | rfl | rfl
    · rcases ends_catching.1 hends with ⟨_, hbody, -⟩ | ⟨_, _, _, hbody, -, hsplit⟩
      · rcases ends_ask_bind.1 hbody with ⟨_, _, hnil, -⟩ | ⟨_, hnil, -⟩ <;> cases hnil
      · obtain ⟨rfl, -⟩ := List.nil_eq_append_iff.1 hsplit
        rcases ends_ask_bind.1 hbody with ⟨_, _, hnil, -⟩ | ⟨_, hnil, -⟩ <;> cases hnil
    all_goals
      obtain ⟨-, rfl⟩ := ends_pure.1 hends
      exact ⟨_, rfl, hclosed _, .closed (by simp) rfl⟩
  · obtain ⟨input, hinput, hrecorded⟩ :=
      recordable_iff.1 (hanswers ⟨.execute, answer⟩ List.mem_cons_self)
    exact ⟨input, hinput, hrecorded, accords_executionOf hinput⟩

section

variable (laws : CanonicalizeLaws P)
include laws

/-- A policy has an outcome in the end: its own, or that of an evaluator that fails. -/
theorem settles_resolvePolicyDecision (action : ActionEnvelope) (timestamp : String) :
    Settles (Favourable P)
      (fun policy => Judged P policy ∧ isPolicyOutcome policy.outcome = true)
      (resolvePolicyDecision P (Async.ask (Op.evaluate action timestamp))) := by
  intro answers result hends hanswers
  rcases ends_catching.1 hends with ⟨policy, hbody, rfl⟩ | ⟨thrown, first, rest, hbody, hrest, rfl⟩
  · refine ⟨policy, rfl, ?_⟩
    rcases ends_ask_bind.1 hbody with ⟨policy', rest, rfl, hrest⟩ | ⟨error, -, herror⟩
    · rcases ends_lift_bind.1 hrest with ⟨_, hvalid, hrest⟩ | ⟨error, -, -, herror⟩
      · obtain ⟨-, heq⟩ := ends_pure.1 hrest
        obtain rfl := Except.ok.inj heq
        exact ⟨hanswers _ List.mem_cons_self, assertThat_eq_ok.1 hvalid⟩
      · exact nomatch herror
    · exact nomatch herror
  · rcases ends_ask_bind.1 hbody with ⟨policy, last, rfl, hlast⟩ | ⟨error, rfl, herror⟩
    · rcases ends_lift_bind.1 hlast with ⟨_, -, hreturn⟩ | ⟨error, hinvalid, rfl, heq⟩
      · exact nomatch (ends_pure.1 hreturn).2
      · -- The outcome is none of a policy, and the text of the error says so.
        obtain rfl := Except.error.inj heq
        have hthrown : thrown = newError "policy outcome has an invalid value" := by
          unfold assertThat at hinvalid
          split at hinvalid
          · cases hinvalid
          · exact (Except.error.inj hinvalid).symm
        subst hthrown
        obtain ⟨-, rfl⟩ := ends_pure.1 hrest
        refine ⟨_, rfl, ⟨?_, ?_⟩, rfl⟩
        · rintro authority ⟨⟩
          exact (laws.object _ (noToJSON_of_keys (by simp))).2 (by
            simpa using laws.string "host-policy")
        · rintro approval ⟨⟩
          exact (laws.object _ (noToJSON_of_keys (by simp))).2 (by simpa using laws.bool false)
    · exact (hanswers ⟨.evaluate action timestamp, .error error⟩ (List.mem_append_left _
        List.mem_cons_self)).elim

theorem settles_gateDecision {options : RunOptions} {action : ActionEnvelope} {key : ActionGateKey}
    {parents : List String} {argsDigest : String} (hkey : options.key = .ok key)
    (hparents : normalizeRecordHashes (options.parentRecordHashes ++
      action.parent_record_hashes.getD []) = .ok parents)
    (hargs : actionArgsDigest P action = .ok argsDigest) :
    Settles (Favourable P) (DecidedBy P (AnyAnswer ρ) options action)
      (gateDecision P options action fun action timestamp =>
        Async.ask (Op.evaluate action timestamp)) := by
  have hsettles : Settles (Favourable P) (fun _ => True) (gateDecision P options action
      fun action timestamp => Async.ask (Op.evaluate action timestamp)) := by
    refine Settles.bind (Q := fun _ => True) (Settles.lift hkey trivial) fun _ _ => ?_
    refine Settles.bind (settles_contextIdOf options) fun contextId _ => ?_
    have hnow : Settles (Favourable P) (fun nowMs : ℚ => ∃ timestamp,
        P.toISOString (.finite nowMs) = .ok timestamp) (Async.ask Op.now : Gate ρ ℚ) := by
      intro answers result hends hanswers
      obtain rfl := ends_ask.1 hends
      have hanswer := hanswers ⟨.now, result⟩ List.mem_cons_self
      cases result with
      | ok nowMs => exact ⟨nowMs, rfl, hanswer⟩
      | error error => exact hanswer.elim
    refine Settles.bind hnow fun nowMs ⟨timestamp, hiso⟩ => ?_
    refine Settles.bind (Q := fun _ => True)
      (Settles.lift (rethrow_eq_ok.2 hiso) trivial) fun timestamp _ => ?_
    refine Settles.bind (Q := (· = parents)) (Settles.lift hparents rfl) ?_
    rintro _ rfl
    refine Settles.bind (settles_resolvePolicyDecision laws action timestamp) ?_
    rintro policy ⟨hpolicy, houtcome⟩
    obtain ⟨entry, hentry⟩ := exists_builtDecision laws timestamp hpolicy houtcome hargs
      (normalizeRecordHashes_idem hparents)
    refine Settles.bind (Q := (· = entry))
      (Settles.lift (buildActionGateDecisionEntry_eq_ok.2 hentry) rfl) ?_
    rintro _ rfl
    refine Settles.bind (settles_of_returns (returns_signActionGateDecision laws hentry)
      (asks_signActionGateDecision options _ _ action _ contextId nowMs)) fun decision _ => ?_
    exact Settles.bind (settles_of_returns (returns_notifyRecord options "decision" decision)
      (asks_notifyRecord options "decision" decision)) fun errors _ => Settles.pure trivial
  refine fun answers result hends hanswers => ?_
  obtain ⟨decided, rfl, -, hdecided⟩ := hsettles.and_asks (asks_gateDecision fun _ _ =>
    Asks.ask trivial fun _ _ => trivial) answers result hends hanswers
  exact ⟨decided, rfl, hdecided⟩

theorem settles_gateOutcome {options : RunOptions} {action : ActionEnvelope} {decided : Decided}
    {input : OutcomeInput ρ} (hdecides : DecidedBy P (AnyAnswer ρ) options action decided)
    (haccords : Accords (decided.artifact.entry.member "decision_state") input)
    (hrecorded : Recorded P input) :
    Settles (Favourable P) (ClosedBy P (AnyAnswer ρ) options action decided input)
      (gateOutcome P options action decided input) := by
  intro answers result hends hanswers
  obtain ⟨hasked, hclosed⟩ := (asks_gateOutcome (A := AnyAnswer ρ) options action decided
    input).ends hends fun _ _ => trivial
  have hundisturbed : Undisturbed P answers := by
    refine ⟨?_, fun event hevent => (hanswers event hevent).harmless (hasked event hevent)⟩
    rintro nowMs rest rfl
    exact hanswers ⟨.now, .ok nowMs⟩ List.mem_cons_self
  obtain ⟨run, rfl⟩ := (gateOutcome_iff laws hdecides haccords hends).2 ⟨hrecorded, hundisturbed⟩
  exact ⟨run, rfl, hclosed run rfl⟩

end

namespace GateSample

end GateSample

end Atrib.ActionGate
