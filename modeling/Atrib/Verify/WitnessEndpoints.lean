import Atrib.Lib.JsValue
import Atrib.Verify.CheckpointNote

/-!
# Cosignatures from the witnesses' own endpoints

`packages/verify/src/witness-endpoints.ts`, for a checkpoint the caller has
already. The note is put together again from the operator's line and what the
endpoints return, so that lines the log delivered with it do not count. The
endpoints are asked one after the other here.
-/

namespace Atrib.Verify

open Lib (Effect JsValue)

/-- A response; its body is read as JSON or as a bounded text, and either may fail. -/
structure Response where
  status : ℕ
  statusText : String
  json : Except String JsValue
  text : Except String String

def Response.isOk (res : Response) : Bool := 200 ≤ res.status ∧ res.status ≤ 299

/-- What a call has come to: the state of the other side, and the warnings so far. -/
structure Session (σ : Type) where
  world : σ
  warnings : List String := []

variable {σ : Type}

def Session.warn (session : Session σ) (warning : String) : Session σ :=
  { session with warnings := session.warnings ++ [warning] }

/-- `warnings.push(warning)` -/
def warn (warning : String) : Effect (Session σ) Unit := Effect.modify (·.warn warning)

def warnIf (condition : Prop) [Decidable condition] (warning : String) :
    Effect (Session σ) Unit := if condition then warn warning else pure ()

/-- A request. The other side may answer anything and remember what it likes. -/
def ask {α : Type} (call : Effect σ α) : Effect (Session σ) α := fun session =>
  ((call session.world).1, { session with world := (call session.world).2 })

theorem returns_ask {α : Type} {call : Effect σ α} {Q : α → Prop}
    (h : ∀ world a, (call world).1 = .ok a → Q a) : Effect.Returns (ask call) Q := by
  intro session a session' hask
  rw [ask, Prod.mk.injEq] at hask
  exact h session.world a hask.1

theorem yields_ask {α : Type} {call : Effect σ α} {Q : α → Prop} (h : Effect.Yields call Q) :
    Effect.Yields (ask call) Q := by
  intro session
  obtain ⟨a, world, hcall, ha⟩ := h session.world
  exact ⟨a, { session with world }, by rw [ask, hcall], ha⟩

theorem yields_warn (warning : String) :
    Effect.Yields (warn (σ := σ) warning) fun _ => True := Effect.Yields.modify _

theorem yields_warnIf (condition : Prop) [Decidable condition] (warning : String) :
    Effect.Yields (warnIf (σ := σ) condition warning) fun _ => True := by
  unfold warnIf
  split
  · exact yields_warn warning
  · exact Effect.Yields.pure trivial

variable (H : Hash) (ed : Ed25519) (buffers : Buffers)

/-! ## Lines -/

/-- `text.trimEnd()` -/
def trimEnd (text : String) : String :=
  String.ofList (text.toList.reverse.dropWhile isSpace).reverse

def appendWitnessLines (operatorNote : String) (lines : List String) : String :=
  if lines = [] then operatorNote
  else trimEnd operatorNote ++ "\n" ++ "\n".intercalate (lines.map trimEnd) ++ "\n"

/-- `/^— \S+ ([A-Za-z0-9+/]+={0,2})$/`, the group. -/
def cosignatureText? (line : List Char) : Option String :=
  match line with
  | '—' :: ' ' :: rest =>
      match rest.splitOn ' ' with
      | [name, payload] =>
          if name ≠ [] ∧ !name.any isSpace ∧ isBase64Text (String.ofList payload) then
            some (String.ofList payload)
          else none
      | _ => none
  | _ => none

def isSingleWitnessCosignature (line : String) : Bool :=
  match line.toList.reverse with
  | '\n' :: chars =>
      match cosignatureText? chars.reverse with
      | some payload =>
          payload.toList.length % 4 == 0 && (buffers.ofBase64 payload).length == 76 &&
            buffers.toBase64 (buffers.ofBase64 payload) == payload
      | none => false
  | _ => false

def operatorOnlyNote (checkpoint : ParsedCheckpointNote) (operatorKey : TrustedCheckpointKey) :
    Option String :=
  (checkpoint.signatureLines.map fun line => checkpoint.body ++ "\n" ++ line ++ "\n").find?
    fun candidate => (verifyOperatorCheckpoint H ed buffers candidate operatorKey).isOk

/-! ## Endpoints -/

structure PinnedWitnessEndpoint extends TrustedCheckpointKey where
  baseUrl : String

inductive WitnessEndpointTransportState where
  | fetched
  | missing
  | httpError
  | transportError
  | invalidUrl
  | notRequested
deriving DecidableEq

def WitnessEndpointTransportState.text : WitnessEndpointTransportState → String
  | .fetched => "fetched"
  | .missing => "missing"
  | .httpError => "http_error"
  | .transportError => "transport_error"
  | .invalidUrl => "invalid_url"
  | .notRequested => "not_requested"

structure WitnessEndpointOutcome where
  name : String
  state : WitnessEndpointTransportState
  transportReason : Option String := none
  valid : Bool := false
  /-- Why the verification failed; by default, why the transport did. -/
  reason : Option String := transportReason

/-- `witnessCosignatureUrl`: an error is a base URL that does not do. -/
abbrev CosignatureUrl := (baseUrl logOrigin rootHash : String) → Except String String

/-- What one endpoint gives: the line, if it counts, and what became of it. -/
def fetchWitnessCosignature (cosignatureUrl : CosignatureUrl) (fetchFn : String → Effect σ Response)
    (currentSeconds : ℚ) (witness : PinnedWitnessEndpoint)
    (operatorNote logOrigin rootHash : String) (options : VerifyWitnessThresholdOptions) :
    Effect (Session σ) (Option String × WitnessEndpointOutcome) :=
  match cosignatureUrl witness.baseUrl logOrigin rootHash with
  | .error reason =>
      pure (none, { name := witness.name, state := .invalidUrl, transportReason := some reason })
  | .ok url => do
      let response ← (do
        let response ← ask (fetchFn url)
        let body ← Effect.lift response.text
        return Except.ok (response, body)).catching fun reason => pure (Except.error reason)
      match response with
      | .error reason =>
          pure (none, { name := witness.name, state := .transportError,
                        transportReason := some reason })
      | .ok (response, line) =>
          if response.status = 404 then
            pure (none, { name := witness.name, state := .missing,
                          transportReason := some "witness has not cosigned this checkpoint" })
          else if !response.isOk then
            pure (none, { name := witness.name, state := .httpError,
                          transportReason :=
                            some s!"witness endpoint returned {response.status}" })
          else if !isSingleWitnessCosignature buffers line then
            pure (none, { name := witness.name, state := .fetched,
                          reason := some "witness endpoint returned an invalid cosignature line" })
          else do
            let individual ← Effect.lift (verifyCheckpointWitnessThreshold H ed buffers
              currentSeconds (appendWitnessLines operatorNote [line])
              { options with
                witnessKeys := [witness.toTrustedCheckpointKey]
                requiredWitnesses := some 1 })
            match individual.witnesses.head? with
            | none =>
                pure (none, { name := witness.name, state := .fetched,
                              reason :=
                                some "witness endpoint returned an invalid cosignature line" })
            | some verification =>
                pure (if verification.valid then some line else none,
                  { name := witness.name, state := .fetched, valid := verification.valid,
                    reason := verification.reason })

/-- Give each fetched line the verdict it has in the composed note. -/
def withVerifications : List (Option String × WitnessEndpointOutcome) →
    List WitnessCosignatureVerification → List WitnessEndpointOutcome
  | [], _ => []
  | (none, outcome) :: fetched, verifications => outcome :: withVerifications fetched verifications
  | (some _, outcome) :: fetched, verification :: verifications =>
      { outcome with valid := verification.valid, reason := verification.reason } ::
        withVerifications fetched verifications
  | (some _, outcome) :: fetched, [] =>
      { outcome with
        valid := false
        reason := some "cosignature was omitted during threshold verification" } ::
          withVerifications fetched []

/-- One endpoint after the other. -/
def forEachWitness {α : Type} (f : PinnedWitnessEndpoint → Effect (Session σ) α) :
    List PinnedWitnessEndpoint → Effect (Session σ) (List α)
  | [] => pure []
  | witness :: witnesses => do
      let first ← f witness
      let rest ← forEachWitness f witnesses
      return first :: rest

/-- The note with the cosignatures that count, and what became of each endpoint. -/
def fetchWitnessCosignaturesForCheckpoint (cosignatureUrl : CosignatureUrl)
    (fetchFn : String → Effect σ Response) (currentSeconds : ℚ) (checkpointNote : String)
    (witnesses : List PinnedWitnessEndpoint) (options : VerifyWitnessThresholdOptions) :
    Effect (Session σ) (String × List WitnessEndpointOutcome) := do
  let options :=
    { options with witnessKeys := witnesses.map PinnedWitnessEndpoint.toTrustedCheckpointKey }
  let unavailable := fun (reason : String) => witnesses.map fun witness =>
    { name := witness.name, state := .notRequested,
      transportReason := some reason : WitnessEndpointOutcome }
  match verifyOperatorCheckpoint H ed buffers checkpointNote options.operatorKey with
  | .error reason => do
      let _ ← Effect.lift
        (verifyCheckpointWitnessThreshold H ed buffers currentSeconds checkpointNote options)
      return (checkpointNote, unavailable ("operator checkpoint did not verify: " ++ reason))
  | .ok checkpoint =>
      match operatorOnlyNote H ed buffers checkpoint options.operatorKey with
      | none => do
          let _ ← Effect.lift (verifyCheckpointWitnessThreshold H ed buffers currentSeconds
            (checkpoint.body ++ "\n") options)
          return (checkpoint.body ++ "\n", unavailable
            "verified operator signature could not be isolated from the checkpoint response")
      | some operatorNote => do
          let fetched ← forEachWitness (fun witness => fetchWitnessCosignature H ed buffers
            cosignatureUrl fetchFn currentSeconds witness operatorNote checkpoint.origin
            (Atrib.base64urlEncode checkpoint.rootHash) options) witnesses
          let composed := appendWitnessLines operatorNote (fetched.filterMap Prod.fst)
          let threshold ← Effect.lift
            (verifyCheckpointWitnessThreshold H ed buffers currentSeconds composed options)
          return (composed, withVerifications fetched threshold.witnesses)

end Atrib.Verify
