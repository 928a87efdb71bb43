import Atrib.Proofs.GateEntries
import Atrib.Proofs.ProtectedCalls
import Atrib.Proofs.SignedOutcomes

/-!
# What an outcome says of its execution

An outcome says that its action was executed just when the decision allowed it, and
then the action body has run. The body of a protected call issues a permit, checks
the credential again and consumes the permit before it invokes the upstream, so it
may have thrown before: an outcome that was executed may be one in which the
upstream has not been invoked. One whose status is `executed` is not.
-/

namespace Atrib.ActionGate

open Lib (Async JsValue)
open Lib.Async (Asks Ends Obeys Protocol ends_ask_bind ends_bind ends_lift_bind ends_pure)

variable {ρ : Type} {P : Platform ρ}

/-! ## Runs -/

/-- How the outcome of a run goes with its decision. -/
theorem RunEnds.executed_iff {A : (op : Op) → Except Thrown (Ans ρ op) → Prop} {γ : Type}
    {Q : γ → Except Thrown (Option ρ) → Prop} {g g' : γ} {options : RunOptions}
    {action : ActionEnvelope} {decided : Decided} {run : RunResult ρ}
    (h : RunEnds P A Q g g' options action decided run) :
    (run.actionExecuted = .bool run.outcomeInput.executed ∧
      run.outcome.entry.member "status" = .string run.outcomeInput.status) ∧
    (run.outcomeInput.executed = true ↔
      run.decision.entry.member "decision_state" = .string "allowed") := by
  obtain ⟨timestamp, timestampMs, hbuilt, -⟩ := h.closes.entry
  have hbuilt := buildActionGateOutcomeEntry_eq_ok.1 hbuilt
  obtain ⟨-, hstatus, -, -, -, -, hexecuted⟩ := hbuilt.members
  refine ⟨⟨hexecuted, hstatus⟩, ?_⟩
  obtain ⟨policy, timestamp, parents, timestampMs, -, hdecision, -⟩ := h.decides.entry
  obtain ⟨state, hstate, hmember⟩ := (buildActionGateDecisionEntry_eq_ok.1 hdecision).state
  rw [h.closes.decision]
  have hresolved := h.resolved
  rw [hmember] at hresolved ⊢
  generalize run.outcomeInput = input at hresolved ⊢
  cases hresolved with
  | closed hstatus hclosed hg =>
      rw [Lib.JsValue.strictEq_string, decide_eq_true_eq] at hclosed
      subst hclosed
      rcases hstatus with rfl | rfl | rfl <;> simp
  | executed hopen hresult =>
      rcases decisionStateFromPolicy_eq_ok hstate with rfl | rfl | rfl | rfl <;> simp_all
  | failed hopen hthrown herror =>
      rcases decisionStateFromPolicy_eq_ok hstate with rfl | rfl | rfl | rfl <;> simp_all

/-! ## The action body of `runGatedAction` -/

/-- Whether the action has been executed. -/
def executeProtocol (ρ : Type) : Protocol Thrown Op (Ans ρ) Bool where
  allowed _ _ := True
  possible _ _ _ := True
  next executed
    | .execute, _ => true
    | _, _ => executed

theorem ignores_executeProtocol : Ignores (AnyAnswer ρ) (executeProtocol ρ) where
  allowed _ _ _ := trivial
  possible _ _ _ _ _ := trivial
  next executed op hop answer := by cases op <;> first | rfl | exact hop.elim

theorem after_executeProtocol (executed : Bool) (answers : Answers ρ) :
    (executeProtocol ρ).after executed answers = true ↔
      executed = true ∨ ∃ answer, ⟨.execute, answer⟩ ∈ answers := by
  induction answers generalizing executed with
  | nil => simp [Protocol.after]
  | cons event answers ih =>
      obtain ⟨op, answer⟩ := event
      refine (ih _).trans ?_
      cases op with
      | execute =>
          exact ⟨fun _ => .inr ⟨answer, List.mem_cons_self⟩, fun _ => .inl rfl⟩
      | _ => simp [executeProtocol]

/-- `runGatedAction` calls its `execute` just when its outcome says so. -/
theorem runGatedAction_executed {options : RunOptions} {action : ActionEnvelope}
    {answers : Answers ρ} {run : RunResult ρ}
    (hends : Ends (runGatedAction P options action
      (fun action timestamp => Async.ask (Op.evaluate action timestamp)) (Async.ask Op.execute))
      answers (.ok run)) :
    run.actionExecuted = .bool true ↔ ∃ answer, ⟨.execute, answer⟩ ∈ answers := by
  have hexecute : Obeys (executeProtocol ρ) (fun executed _ => executed = true) false
      (Async.ask Op.execute) := Obeys.ask trivial fun _ _ => rfl
  obtain ⟨decided, hrun⟩ := (obeys_runGatedAction ignores_executeProtocol
    (fun _ _ => Asks.ask trivial fun _ _ => trivial) hexecute).ends hends
    (Protocol.possible_always (fun _ _ _ => trivial) false answers) run rfl
  obtain ⟨⟨hexecuted, -⟩, -⟩ := hrun.executed_iff
  have hran : (executeProtocol ρ).after false answers = true ↔
      ∃ answer, ⟨.execute, answer⟩ ∈ answers := by
    simpa using after_executeProtocol false answers
  rw [hexecuted, ← hran]
  have hresolved := hrun.resolved
  generalize run.outcomeInput = input at hresolved ⊢
  cases hresolved with
  | closed hstatus hclosed hg => simp [hg]
  | executed hopen hresult => simp [hresult]
  | failed hopen hthrown herror => simp [hthrown]

namespace GateSample

theorem runGatedAction_executed_done :
    ∃ answers run, Ends (runGatedAction platform options action
        (fun action timestamp => Async.ask (Op.evaluate action timestamp)) (Async.ask Op.execute))
        answers (.ok run) ∧ run.actionExecuted = .bool true := by
  obtain ⟨before, after, run, hends, -⟩ := exists_run ends_execute recordable_answer
  refine ⟨_, run, hends, (runGatedAction_executed hends).2 ⟨answer, ?_⟩⟩
  simp

end GateSample

/-! ## Protected calls -/

/-- The ticket has what the upstream has answered. -/
theorem after_permitProtocol {surface : String} {action : ActionContext} {request : ToolCall}
    {ticket : Ticket ρ} {answers : Answers ρ}
    (hallowed : (permitProtocol P surface action request).Allowed ticket answers)
    (answer : Except Thrown (Option ρ)) :
    ((permitProtocol P surface action request).after ticket answers).answer = some answer ↔
      ticket.answer = some answer ∨ ⟨.executeUpstream request, answer⟩ ∈ answers := by
  induction answers generalizing ticket with
  | nil => simp [Protocol.after]
  | cons event answers ih =>
      obtain ⟨op, given⟩ := event
      refine (ih hallowed.2).trans ?_
      cases op with
      | executeUpstream called =>
          obtain ⟨rfl, -, hnone⟩ := hallowed.1
          rw [hnone, List.mem_cons]
          constructor
          · rintro (hgiven | hlater)
            · cases hgiven
              exact .inr (.inl rfl)
            · exact .inr (.inr hlater)
          · rintro (hnever | hgiven | hlater)
            · exact nomatch hnever
            · cases hgiven
              exact .inl rfl
            · exact .inr hlater
      | consume input => rcases given with thrown | (_ | reason) <;> simp [permitProtocol]
      | _ => simp [permitProtocol]

theorem request_eq_of_allowed {surface : String} {action : ActionContext} {request : ToolCall}
    {ticket : Ticket ρ} {answers : Answers ρ}
    (hallowed : (permitProtocol P surface action request).Allowed ticket answers)
    {called : ToolCall} {answer : Except Thrown (Option ρ)}
    (hmem : ⟨.executeUpstream called, answer⟩ ∈ answers) : called = request := by
  induction answers generalizing ticket with
  | nil => exact absurd hmem List.not_mem_nil
  | cons event answers ih =>
      rcases List.mem_cons.1 hmem with rfl | hmem
      · exact hallowed.1.1
      · exact ih hallowed.2 hmem

/-- What the outcome of a protected call says: that it was executed just when the decision allowed
it, as it did if the upstream was invoked; and its status is that of the upstream. -/
theorem authorizeAndExecute_executed {options : ExecutorOptions} {action : ActionContext}
    {request : ToolCall} {answers : Answers ρ} {run : RunResult ρ}
    (hends : Ends (authorizeAndExecute P options action request) answers (.ok run)) :
    (run.actionExecuted = .bool true ↔
      run.decision.entry.member "decision_state" = .string "allowed") ∧
    ((∃ called answer, ⟨.executeUpstream called, answer⟩ ∈ answers) →
      run.actionExecuted = .bool true) ∧
    (run.outcome.entry.member "status" = .string "executed" ↔
      ∃ result, ⟨.executeUpstream request, .ok result⟩ ∈ answers) := by
  have hpossible : (permitProtocol P options.surface action request).Possible {} answers :=
    Protocol.possible_always (fun _ _ _ => trivial) _ _
  have hallowed := obeys_authorizeAndExecute.allowed hends hpossible
  obtain ⟨envelope, decided, hrun⟩ := obeys_authorizeAndExecute.ends hends hpossible run rfl
  obtain ⟨⟨hexecuted, hstatus⟩, hstate⟩ := hrun.executed_iff
  have hanswer : ∀ answer, _ ↔ ⟨.executeUpstream request, answer⟩ ∈ answers := fun answer =>
    (after_permitProtocol hallowed answer).trans (or_iff_right fun h => nomatch h)
  rw [← hstate, hexecuted, hstatus]
  have hresolved := hrun.resolved
  generalize run.outcomeInput = input at hresolved ⊢
  simp only [JsValue.bool.injEq, JsValue.string.injEq, true_and]
  cases hresolved with
  | closed hclosed hopen hticket =>
      -- The body has not run, so nothing has been invoked.
      have hnone : ∀ answer, ⟨.executeUpstream request, answer⟩ ∉ answers := by
        intro answer hmem
        have hsome := (hanswer answer).2 hmem
        rw [hticket] at hsome
        exact nomatch hsome
      refine ⟨?_, ?_⟩
      · rintro ⟨called, answer, hmem⟩
        obtain rfl := request_eq_of_allowed hallowed hmem
        exact absurd hmem (hnone answer)
      · refine iff_of_false ?_ ?_
        · rcases hclosed with rfl | rfl | rfl <;> simp
        · exact fun ⟨result, hmem⟩ => hnone _ hmem
  | @executed result hopen hresult =>
      exact ⟨fun _ => rfl, iff_of_true rfl ⟨result, (hanswer _).1 hresult⟩⟩
  | failed hopen hthrown herror =>
      refine ⟨fun _ => rfl, iff_of_false (by simp) ?_⟩
      rintro ⟨result, hmem⟩
      have hsome := (hanswer _).2 hmem
      rcases hthrown with hthrown | hthrown
      · rw [hthrown] at hsome
        exact nomatch hsome
      · rw [hthrown] at hsome
        exact nomatch hsome

namespace GateSample

def executor : ExecutorOptions where
  key := options.key
  contextId := options.contextId

def context : ActionContext where
  run_id := "run-1"
  action_id := "action-1"
  agent_id := "agent-1"

def request : ToolCall where
  name := "search"

theorem exists_binding :
    ∃ binding, protectedMcpBinding platform executor.surface context request = .ok binding := by
  obtain ⟨digest, hdigest⟩ := exists_actionArgsDigest
  obtain ⟨binding, hbinding⟩ : ∃ binding, hashCanonical platform (.object
      [("run_id", .string "run-1"), ("action_id", .string "action-1"), ("agent_id", .string "agent-1"),
      ("surface", .string "mcp"), ("tool_name", .string "search"),
      ("args_digest", .string digest)]) = .ok binding := by
    refine laws.hashCanonical_ok (noToJSON_of_keys (by simp)) ?_
    simp only [List.forall_mem_cons, List.not_mem_nil, false_imp_iff, implies_true, and_true]
    exact ⟨laws.string _, laws.string _, laws.string _, laws.string _, laws.string _,
      laws.string _⟩
  exact ⟨binding, Lib.bind_eq_ok.2 ⟨digest, hdigest, hbinding⟩⟩

/-- The body of a protected call, from its permit to what the upstream answers. -/
theorem ends_executeWithPermit {binding : String}
    (hbinding : protectedMcpBinding platform executor.surface context request = .ok binding) :
    Ends (executeWithPermit platform executor context request)
      [⟨.now, .ok 0⟩, ⟨.createPermitId, .ok "permit-1"⟩,
        ⟨.issue ⟨"permit-1", binding, 0, 0 + executor.permitMaxAgeMs⟩, .ok ()⟩, ⟨.now, .ok 0⟩,
        ⟨.consume ⟨"permit-1", binding, 0⟩, .ok none⟩, ⟨.executeUpstream request, answer⟩]
      answer := by
  refine ends_ask_bind.2 (.inl ⟨0, _, rfl, ends_ask_bind.2 (.inl ⟨"permit-1", _, rfl, ?_⟩)⟩)
  rw [if_neg (by decide)]
  refine ends_lift_bind.2 (.inl ⟨binding, hbinding, ends_ask_bind.2 (.inl ⟨(), _, rfl, ?_⟩)⟩)
  refine ends_bind.2 (.inl ⟨.ok (some (.string "done")), _, [], ?_, ends_pure.2 ⟨rfl, rfl⟩,
    (List.append_nil _).symm⟩)
  refine ends_lift_bind.2 (.inl ⟨binding, hbinding, ends_ask_bind.2 (.inl ⟨0, _, rfl, ?_⟩)⟩)
  refine ends_ask_bind.2 (.inl ⟨none, _, rfl, ends_ask_bind.2 (.inl ⟨_, [], rfl, ?_⟩)⟩)
  exact ends_pure.2 ⟨rfl, rfl⟩

theorem authorizeAndExecute_executed_done :
    ∃ answers run, Ends (authorizeAndExecute platform executor context request) answers (.ok run) ∧
      run.actionExecuted = .bool true ∧
      run.outcome.entry.member "status" = .string "executed" := by
  obtain ⟨binding, hbinding⟩ := exists_binding
  obtain ⟨before, after, run, hends, -⟩ :=
    exists_run (ends_executeWithPermit hbinding) recordable_answer
  have hends : Ends (authorizeAndExecute platform executor context request) _ _ := hends
  obtain ⟨-, hexecuted, hstatus⟩ := authorizeAndExecute_executed hends
  exact ⟨_, run, hends, hexecuted ⟨request, answer, by simp⟩,
    hstatus.2 ⟨some (.string "done"), by simp [answer]⟩⟩

end GateSample

end Atrib.ActionGate
