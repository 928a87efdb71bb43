import Atrib.Proofs.GatedRuns

/-!
# What a call of the executor may do

A call that has consumed no permit may consume one, of the binding of its action
and request, and one that has consumed a permit may invoke the upstream once. What
the upstream answers is kept, so that it can be compared with the outcome that is
signed.
-/

namespace Atrib.ActionGate

open Lib (Async JsValue)
open Lib.Async (Asks Obeys Protocol)

variable {ρ : Type} (P : Platform ρ)

/-- What a call has done so far. -/
structure Ticket (ρ : Type) where
  /-- A permit has been consumed. -/
  spent : Bool := false
  /-- What the upstream has answered. -/
  answer : Option (Except Thrown (Option ρ)) := none

def permitProtocol (surface : String) (action : ActionContext) (request : ToolCall) :
    Protocol Thrown Op (Ans ρ) (Ticket ρ) where
  allowed ticket
    | .consume input => ticket.spent = false ∧
        protectedMcpBinding P surface action request = .ok input.binding
    | .executeUpstream r => r = request ∧ ticket.spent = true ∧ ticket.answer = none
    | .execute => False
    | _ => True
  possible _ _ _ := True
  next ticket
    | .consume _, .ok none => { ticket with spent := true }
    | .executeUpstream _, answer => { ticket with answer := some answer }
    | _, _ => ticket

variable {P}
variable {options : ExecutorOptions} {surface : String} {action : ActionContext}
variable {request : ToolCall}

theorem ignores_permitProtocol :
    Ignores (AnyAnswer ρ) (permitProtocol P surface action request) where
  allowed ticket op hop := by cases op <;> first | exact trivial | exact hop.elim
  possible _ _ _ _ _ := trivial
  next ticket op hop answer := by cases op <;> first | rfl | exact hop.elim

/-- Plain requests leave the ticket as it is. -/
theorem obeys_of_asks {α : Type} {Q : α → Prop} {c : Gate ρ α} (ticket : Ticket ρ)
    (hc : Asks Plain (AnyAnswer ρ) Q c) :
    Obeys (permitProtocol P surface action request)
      (fun ticket' result => ticket' = ticket ∧ ∀ a, result = .ok a → Q a) ticket c :=
  ignores_permitProtocol.obeys hc ticket

/-! ## The parts of a call -/

theorem asks_credentialAuthorization (action : ActionContext) :
    Asks Plain (AnyAnswer ρ) (fun _ => True) (credentialAuthorization (ρ := ρ) options action) := by
  unfold credentialAuthorization
  split
  · exact Asks.pure trivial
  · exact Asks.pure trivial
  · next revoked credential _ _ =>
    refine Asks.bind (Q := fun _ => True) (Asks.catching ?_ fun _ => Asks.pure trivial)
      fun keys _ => ?_
    · cases revoked with
      | keys keys => exact Asks.pure trivial
      | view =>
          exact Asks.bind (Q := fun _ => True) (Asks.ask trivial fun _ _ => trivial)
            fun _ _ => Asks.pure trivial
    · cases keys with
      | none => exact Asks.pure trivial
      | some keys =>
          dsimp only
          split <;> exact Asks.pure trivial

/-- A run with a policy of the executor's own, whose action throws. -/
theorem asks_blockedRun (run : RunOptions) (envelope : ActionEnvelope) (policy : PolicyDecision)
    (thrown : Thrown) :
    Asks Plain (AnyAnswer ρ) (fun _ => True)
      (runGatedAction P run envelope (fun _ _ => pure policy) (.throw thrown)) := by
  have hignores : Ignores (AnyAnswer ρ) (Protocol.stateless Plain (AnyAnswer ρ)) :=
    ⟨fun _ _ h => h, fun _ _ _ _ _ => trivial, fun _ _ _ _ => rfl⟩
  refine (obeys_runGatedAction hignores (Q := fun _ _ => True)
    (fun _ _ => Asks.pure trivial) ?_).mono fun _ _ _ _ _ => trivial
  exact trivial

theorem asks_rejectBypass (reason : AuthorizationReason) :
    Asks Plain (AnyAnswer ρ) (fun result => ∃ evidence, result = .rejected reason evidence)
      (rejectBypass P options action request reason) := by
  refine Asks.catching ?_ fun error => ?_
  · exact Asks.bind (asks_blockedRun _ _ _ _) fun evidence _ => Asks.pure ⟨.ok evidence, rfl⟩
  · exact Asks.bind (Q := fun _ => True) (Asks.lift fun _ _ => trivial)
      fun error _ => Asks.pure ⟨.error error, rfl⟩

/-- How the action body ends: as the upstream does, or with an exception of its own. -/
def BodyEnds (ticket : Ticket ρ) : Except Thrown (Option ρ) → Prop
  | .ok result => ticket.answer = some (.ok result)
  | .error thrown => ticket.answer = none ∨ ticket.answer = some (.error thrown)

/-- How a dispatch ends. -/
def DispatchEnds (ticket : Ticket ρ) : Except Thrown (DispatchResult ρ) → Prop
  | .ok (.ok result) => ticket.answer = some (.ok result)
  | .ok (.rejected _ _) => ticket.answer = none
  | .error thrown => ticket.answer = none ∨ ticket.answer = some (.error thrown)

theorem obeys_rejectBypass {ticket : Ticket ρ} (hticket : ticket.answer = none)
    (reason : AuthorizationReason) :
    Obeys (permitProtocol P options.surface action request) DispatchEnds ticket
      (rejectBypass P options action request reason) := by
  refine (obeys_of_asks ticket (asks_rejectBypass reason)).mono ?_
  rintro _ (thrown | result) ⟨rfl, hresult⟩
  · exact .inl hticket
  · obtain ⟨evidence, rfl⟩ := hresult result rfl
    exact hticket

theorem obeys_dispatch (permitId : Option String) :
    Obeys (permitProtocol P options.surface action request) DispatchEnds {}
      (dispatch P options action request permitId) := by
  refine Obeys.bind ?_ ?_ (obeys_of_asks {} (asks_credentialAuthorization action))
  swap
  · rintro _ thrown ⟨rfl, -⟩
    exact .inl rfl
  rintro _ (_ | reason) ⟨rfl, -⟩
  swap
  · exact obeys_rejectBypass rfl reason
  dsimp only
  cases permitId.filter (· ≠ "") with
  | none => exact obeys_rejectBypass rfl _
  | some permitId =>
    refine Obeys.bind
      (Q := fun ticket result => ticket = {} ∧ ∀ binding, result = .ok binding →
        protectedMcpBinding P options.surface action request = .ok binding)
      ?_ (fun _ _ h => .inl (h.1 ▸ rfl)) (Obeys.lift ⟨rfl, fun _ h => h⟩)
    rintro _ binding ⟨rfl, hbinding⟩
    refine Obeys.bind (Q := fun ticket _ => ticket = {}) ?_ (fun _ _ h => .inl (h ▸ rfl))
      (Obeys.ask trivial fun _ _ => rfl)
    rintro _ nowMs rfl
    -- The answer to `consume` decides what the upstream may be asked.
    refine ⟨⟨rfl, hbinding binding rfl⟩, ?_⟩
    rintro (thrown | (_ | reason)) -
    · exact .inl rfl
    · refine ⟨⟨rfl, rfl, rfl⟩, ?_⟩
      rintro (thrown | result) -
      · exact .inr rfl
      · exact rfl
    · exact obeys_rejectBypass rfl reason

theorem obeys_executeWithPermit :
    Obeys (permitProtocol P options.surface action request) BodyEnds {}
      (executeWithPermit P options action request) := by
  have hask : ∀ {op : Op}, Plain op →
      Obeys (permitProtocol P options.surface action request) (fun ticket _ => ticket = {}) {}
        (Async.ask op) := fun hop =>
    (obeys_of_asks {} (Asks.ask (Q := fun _ => True) hop fun _ _ => trivial)).mono fun _ _ h => h.1
  refine Obeys.bind ?_ (fun _ _ h => .inl (h ▸ rfl)) (hask trivial)
  rintro _ issuedAtMs rfl
  refine Obeys.bind ?_ (fun _ _ h => .inl (h ▸ rfl)) (hask trivial)
  rintro _ permitId rfl
  split
  · exact .inl rfl
  refine Obeys.bind (Q := fun ticket _ => ticket = {}) ?_ (fun _ _ h => .inl (h ▸ rfl))
    (Obeys.lift rfl)
  rintro _ binding rfl
  refine Obeys.bind (Q := fun ticket _ => ticket = {}) ?_ (fun _ _ h => .inl (h ▸ rfl))
    (Obeys.ask trivial fun _ _ => rfl)
  rintro _ - rfl
  refine Obeys.bind (R := BodyEnds) ?_ (fun _ _ h => by exact h) (obeys_dispatch (some permitId))
  rintro ticket (result | ⟨reason, evidence⟩) hticket
  · exact hticket
  · exact .inl hticket

/-- What `authorizeAndExecute` comes to: a run whose action ended as the upstream did, or
before it was invoked. -/
theorem obeys_authorizeAndExecute :
    Obeys (permitProtocol P options.surface action request)
      (fun ticket result => ∀ run, result = .ok run → ∃ envelope decided,
        RunEnds P (AnyAnswer ρ) BodyEnds {} ticket options.run envelope decided run) {}
      (authorizeAndExecute P options action request) := by
  refine Obeys.bind ?_ (fun _ _ _ _ h => nomatch h)
    (obeys_of_asks {} (asks_credentialAuthorization action))
  rintro _ (_ | reason) ⟨rfl, -⟩
  · refine (obeys_runGatedAction ignores_permitProtocol
      (fun _ _ => Asks.ask trivial fun _ _ => trivial) obeys_executeWithPermit).mono ?_
    intro ticket result hrun run hresult
    exact ⟨_, hrun run hresult⟩
  · refine (obeys_runGatedAction (Q := BodyEnds) ignores_permitProtocol
      (fun _ _ => Asks.pure trivial) ?_).mono ?_
    · exact Or.inl rfl
    · intro ticket result hrun run hresult
      exact ⟨_, hrun run hresult⟩

end Atrib.ActionGate
