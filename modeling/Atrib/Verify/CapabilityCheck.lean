import Atrib.Verify.Delegation

/-!
# The capability check

`resolveCapabilityCheck` of `packages/verify/src/verify-record.ts` (§6.7.2). Each
constraint of an envelope comes to a mismatch, to nothing, or to a fact that is
missing, one after the other.
-/

namespace Atrib.Verify

open Lib (JsNumber NumberText)

structure CapabilityEnvelope where
  toolNames : Option (List String) := none
  eventTypes : Option (List String) := none
  maxAmount : Option DelegationAmount := none
  counterparties : Option (List String) := none
  expiresAt : Option JsNumber := none
deriving DecidableEq

/-- What a record does not carry. -/
structure ResolvedCapabilityFacts where
  toolName : Option String := none
  transactionAmount : Option DelegationAmount := none
  transactionCounterparty : Option String := none

structure CapabilityCheckAnnotation where
  envelope : Option CapabilityEnvelope
  inEnvelope : Bool
  mismatches : List String
  unresolvable : Bool
deriving DecidableEq

/-- What one constraint comes to. -/
inductive CapabilityVerdict where
  | mismatch (text : String)
  | unresolvable
  | none
deriving DecidableEq

def CapabilityVerdict.mismatch? : CapabilityVerdict → Option String
  | .mismatch text => some text
  | _ => .none

/-- `Array.isArray(list) && list.length > 0` -/
def allowlist? (list : Option (List String)) : Option (List String) := list.filter (· ≠ [])

def expiryVerdict (texts : NumberText) (record : AtribRecord) (envelope : CapabilityEnvelope) :
    CapabilityVerdict :=
  match envelope.expiresAt with
  | some expiresAt =>
      if expiresAt.lt (.finite record.timestamp) then
        .mismatch ("envelope expired at " ++ texts.toText expiresAt ++ "; record timestamp " ++
          texts.toText (.finite record.timestamp))
      else .none
  | none => .none

def eventTypeVerdict (record : AtribRecord) (envelope : CapabilityEnvelope) : CapabilityVerdict :=
  match allowlist? envelope.eventTypes with
  | some eventTypes =>
      if record.eventType ∉ eventTypes then
        .mismatch ("event_type '" ++ record.eventType ++ "' not in allowlist")
      else .none
  | none => .none

/-- `facts?.tool_name ?? record.tool_name`, where it is a text that is not empty. -/
def resolvedToolName (record : AtribRecord) (facts : ResolvedCapabilityFacts) : Option String :=
  (facts.toolName.or (record.rest.lookup "tool_name")).filter (· ≠ "")

def toolNameVerdict (record : AtribRecord) (envelope : CapabilityEnvelope)
    (facts : ResolvedCapabilityFacts) : CapabilityVerdict :=
  match allowlist? envelope.toolNames with
  | some toolNames =>
      if record.eventType = "https://atrib.dev/v1/types/tool_call" then
        match resolvedToolName record facts with
        | some toolName =>
            if toolName ∉ toolNames then
              .mismatch ("tool_name '" ++ toolName ++ "' not in allowlist")
            else .none
        | none => .unresolvable
      else .none
  | none => .none

def amountVerdict (texts : NumberText) (envelope : CapabilityEnvelope)
    (facts : ResolvedCapabilityFacts) : CapabilityVerdict :=
  match envelope.maxAmount with
  | some maxAmount =>
      match facts.transactionAmount with
      | none => .unresolvable
      | some amount =>
          if amount.currency ≠ maxAmount.currency then
            .mismatch ("transaction currency '" ++ amount.currency ++
              "' does not match envelope currency '" ++ maxAmount.currency ++ "'")
          else if maxAmount.value.lt amount.value then
            .mismatch ("transaction amount " ++ texts.toText amount.value ++
              " exceeds envelope max " ++ texts.toText maxAmount.value)
          else .none
  | none => .none

def counterpartyVerdict (envelope : CapabilityEnvelope) (facts : ResolvedCapabilityFacts) :
    CapabilityVerdict :=
  match allowlist? envelope.counterparties with
  | some counterparties =>
      match facts.transactionCounterparty.filter (· ≠ "") with
      | none => .unresolvable
      | some counterparty =>
          if counterparty ∉ counterparties then
            .mismatch ("counterparty '" ++ counterparty ++ "' not in allowlist")
          else .none
  | none => .none

/-- The constraints in the order in which the source checks them. -/
def capabilityVerdicts (texts : NumberText) (record : AtribRecord) (envelope : CapabilityEnvelope)
    (facts : ResolvedCapabilityFacts) : List CapabilityVerdict :=
  [expiryVerdict texts record envelope, eventTypeVerdict record envelope,
      toolNameVerdict record envelope facts] ++
    if record.eventType = "https://atrib.dev/v1/types/transaction" then
      [amountVerdict texts envelope facts, counterpartyVerdict envelope facts]
    else []

/-- No facts are the same as facts without any member. -/
def resolveCapabilityCheck (texts : NumberText) (record : AtribRecord)
    (capabilities : Option CapabilityEnvelope) (facts : Option ResolvedCapabilityFacts) :
    CapabilityCheckAnnotation :=
  match capabilities.filter (· ≠ {}) with
  | none => { envelope := none, inEnvelope := true, mismatches := [], unresolvable := false }
  | some envelope =>
      let verdicts := capabilityVerdicts texts record envelope (facts.getD {})
      let mismatches := verdicts.filterMap CapabilityVerdict.mismatch?
      { envelope := some envelope
        inEnvelope := mismatches = []
        mismatches := mismatches
        unresolvable := verdicts.contains .unresolvable }

end Atrib.Verify
