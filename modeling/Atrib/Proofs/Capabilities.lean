import Atrib.Verify.CapabilityCheck

/-!
# Records within their capabilities

A record is in the envelope where the envelope has not expired and no constraint
that can be resolved is violated. The expiry is a mismatch of its own: it does
not put the other constraints out of force. What is missing is a fact that a
constraint on the record needs.
-/

namespace Atrib.Verify

open Lib (JsNumber NumberText)

section

variable {texts : NumberText} {record : AtribRecord} {envelope : CapabilityEnvelope}
  {facts : ResolvedCapabilityFacts}

def Expired (record : AtribRecord) (envelope : CapabilityEnvelope) : Prop :=
  ∃ expiresAt, envelope.expiresAt = some expiresAt ∧
    expiresAt.lt (.finite record.timestamp) = true

def IsToolCall (record : AtribRecord) : Prop :=
  record.eventType = "https://atrib.dev/v1/types/tool_call"

def ChargesMoney (record : AtribRecord) : Prop :=
  record.eventType = "https://atrib.dev/v1/types/transaction"

/-- A counterparty that is known. -/
def resolvedCounterparty (facts : ResolvedCapabilityFacts) : Option String :=
  facts.transactionCounterparty.filter (· ≠ "")

/-- A constraint that is there, applies to the record and can be resolved is not met. -/
inductive Violated (record : AtribRecord) (envelope : CapabilityEnvelope)
    (facts : ResolvedCapabilityFacts) : Prop
  | eventType (types : List String) (hlist : envelope.eventTypes = some types)
      (hnot : record.eventType ∉ types)
  | toolName (names : List String) (name : String) (hlist : envelope.toolNames = some names)
      (happlies : IsToolCall record) (hname : resolvedToolName record facts = some name)
      (hnot : name ∉ names)
  | currency (bound amount : DelegationAmount) (hbound : envelope.maxAmount = some bound)
      (happlies : ChargesMoney record) (hamount : facts.transactionAmount = some amount)
      (hnot : amount.currency ≠ bound.currency)
  | amount (bound amount : DelegationAmount) (hbound : envelope.maxAmount = some bound)
      (happlies : ChargesMoney record) (hamount : facts.transactionAmount = some amount)
      (hnot : bound.value.lt amount.value = true)
  | counterparty (names : List String) (name : String) (hlist : envelope.counterparties = some names)
      (happlies : ChargesMoney record) (hname : resolvedCounterparty facts = some name)
      (hnot : name ∉ names)

/-- A fact is missing that a constraint which is there and applies to the record needs. -/
inductive Missing (record : AtribRecord) (envelope : CapabilityEnvelope)
    (facts : ResolvedCapabilityFacts) : Prop
  | toolName (hlist : envelope.toolNames ≠ none) (happlies : IsToolCall record)
      (hname : resolvedToolName record facts = none)
  | amount (hbound : envelope.maxAmount ≠ none) (happlies : ChargesMoney record)
      (hamount : facts.transactionAmount = none)
  | counterparty (hlist : envelope.counterparties ≠ none) (happlies : ChargesMoney record)
      (hname : resolvedCounterparty facts = none)

/-- The lists that are there have members. -/
structure ListsNonempty (envelope : CapabilityEnvelope) : Prop where
  eventTypes : envelope.eventTypes ≠ some []
  toolNames : envelope.toolNames ≠ some []
  counterparties : envelope.counterparties ≠ some []

theorem allowlist?_eq {list : Option (List String)} (h : list ≠ some []) :
    allowlist? list = list := by
  cases list with
  | none => rfl
  | some names =>
      have hne : names ≠ [] := fun hnil => h (congrArg some hnil)
      simp [allowlist?, hne]

/-! ## Verdicts -/

theorem expiryVerdict_mismatch :
    (expiryVerdict texts record envelope).mismatch? ≠ none ↔ Expired record envelope := by
  unfold expiryVerdict Expired
  cases envelope.expiresAt with
  | none => exact iff_of_false (fun h => h rfl) nofun
  | some expiresAt =>
      dsimp only
      split
      · next h => exact iff_of_true nofun ⟨expiresAt, rfl, h⟩
      · next h =>
          refine iff_of_false (fun hne => hne rfl) ?_
          rintro ⟨_, ⟨⟩, hlt⟩
          exact h hlt

theorem expiryVerdict_ne : expiryVerdict texts record envelope ≠ .unresolvable := by
  unfold expiryVerdict
  split
  · split <;> nofun
  · nofun

theorem eventTypeVerdict_mismatch (h : ListsNonempty envelope) :
    (eventTypeVerdict record envelope).mismatch? ≠ none ↔
      ∃ types, envelope.eventTypes = some types ∧ record.eventType ∉ types := by
  unfold eventTypeVerdict
  rw [allowlist?_eq h.eventTypes]
  cases envelope.eventTypes with
  | none => exact iff_of_false (fun h => h rfl) nofun
  | some types =>
      dsimp only
      split
      · next hnot => exact iff_of_true nofun ⟨types, rfl, hnot⟩
      · next hin =>
          refine iff_of_false (fun hne => hne rfl) ?_
          rintro ⟨_, ⟨⟩, hnot⟩
          exact hin hnot

theorem eventTypeVerdict_ne : eventTypeVerdict record envelope ≠ .unresolvable := by
  unfold eventTypeVerdict
  split
  · split <;> nofun
  · nofun

theorem toolNameVerdict_mismatch (h : ListsNonempty envelope) :
    (toolNameVerdict record envelope facts).mismatch? ≠ none ↔
      ∃ names name, envelope.toolNames = some names ∧ IsToolCall record ∧
        resolvedToolName record facts = some name ∧ name ∉ names := by
  unfold toolNameVerdict
  rw [allowlist?_eq h.toolNames]
  cases envelope.toolNames with
  | none => exact iff_of_false (fun h => h rfl) nofun
  | some names =>
      dsimp only
      split
      · next happlies =>
          cases hname : resolvedToolName record facts with
          | none => exact iff_of_false (fun h => h rfl) nofun
          | some name =>
              dsimp only
              split
              · next hnot => exact iff_of_true nofun ⟨names, name, rfl, happlies, rfl, hnot⟩
              · next hin =>
                  refine iff_of_false (fun hne => hne rfl) ?_
                  rintro ⟨_, _, ⟨⟩, -, ⟨⟩, hnot⟩
                  exact hin hnot
      · next hother =>
          refine iff_of_false (fun hne => hne rfl) ?_
          rintro ⟨_, _, -, happlies, -⟩
          exact hother happlies

theorem toolNameVerdict_eq (h : ListsNonempty envelope) :
    toolNameVerdict record envelope facts = .unresolvable ↔
      envelope.toolNames ≠ none ∧ IsToolCall record ∧ resolvedToolName record facts = none := by
  unfold toolNameVerdict
  rw [allowlist?_eq h.toolNames]
  cases envelope.toolNames with
  | none => exact iff_of_false nofun fun h => h.1 rfl
  | some names =>
      dsimp only
      split
      · next happlies =>
          cases hname : resolvedToolName record facts with
          | none => exact iff_of_true rfl ⟨nofun, happlies, rfl⟩
          | some name =>
              dsimp only
              split <;> exact iff_of_false nofun nofun
      · next hother => exact iff_of_false nofun fun h => hother h.2.1

theorem amountVerdict_mismatch :
    (amountVerdict texts envelope facts).mismatch? ≠ none ↔
      ∃ bound amount, envelope.maxAmount = some bound ∧ facts.transactionAmount = some amount ∧
        (amount.currency ≠ bound.currency ∨ bound.value.lt amount.value = true) := by
  unfold amountVerdict
  cases envelope.maxAmount with
  | none => exact iff_of_false (fun h => h rfl) nofun
  | some bound =>
      cases facts.transactionAmount with
      | none => exact iff_of_false (fun h => h rfl) nofun
      | some amount =>
          dsimp only
          split
          · next hcurrency => exact iff_of_true nofun ⟨bound, amount, rfl, rfl, .inl hcurrency⟩
          · next hcurrency =>
              split
              · next hvalue => exact iff_of_true nofun ⟨bound, amount, rfl, rfl, .inr hvalue⟩
              · next hvalue =>
                  refine iff_of_false (fun hne => hne rfl) ?_
                  rintro ⟨_, _, ⟨⟩, ⟨⟩, hor⟩
                  exact hor.elim hcurrency hvalue

theorem amountVerdict_eq :
    amountVerdict texts envelope facts = .unresolvable ↔
      envelope.maxAmount ≠ none ∧ facts.transactionAmount = none := by
  unfold amountVerdict
  cases envelope.maxAmount with
  | none => exact iff_of_false nofun fun h => h.1 rfl
  | some bound =>
      cases facts.transactionAmount with
      | none => exact iff_of_true rfl ⟨nofun, rfl⟩
      | some amount =>
          dsimp only
          split
          · exact iff_of_false nofun nofun
          · split <;> exact iff_of_false nofun nofun

theorem counterpartyVerdict_mismatch (h : ListsNonempty envelope) :
    (counterpartyVerdict envelope facts).mismatch? ≠ none ↔
      ∃ names name, envelope.counterparties = some names ∧
        resolvedCounterparty facts = some name ∧ name ∉ names := by
  unfold counterpartyVerdict resolvedCounterparty
  rw [allowlist?_eq h.counterparties]
  cases envelope.counterparties with
  | none => exact iff_of_false (fun h => h rfl) nofun
  | some names =>
      dsimp only
      cases facts.transactionCounterparty.filter (· ≠ "") with
      | none => exact iff_of_false (fun h => h rfl) nofun
      | some name =>
          dsimp only
          split
          · next hnot => exact iff_of_true nofun ⟨names, name, rfl, rfl, hnot⟩
          · next hin =>
              refine iff_of_false (fun hne => hne rfl) ?_
              rintro ⟨_, _, ⟨⟩, ⟨⟩, hnot⟩
              exact hin hnot

theorem counterpartyVerdict_eq (h : ListsNonempty envelope) :
    counterpartyVerdict envelope facts = .unresolvable ↔
      envelope.counterparties ≠ none ∧ resolvedCounterparty facts = none := by
  unfold counterpartyVerdict resolvedCounterparty
  rw [allowlist?_eq h.counterparties]
  cases envelope.counterparties with
  | none => exact iff_of_false nofun fun h => h.1 rfl
  | some names =>
      dsimp only
      cases facts.transactionCounterparty.filter (· ≠ "") with
      | none => exact iff_of_true rfl ⟨nofun, rfl⟩
      | some name =>
          dsimp only
          split <;> exact iff_of_false nofun nofun

/-! ## The check -/

theorem mem_capabilityVerdicts {verdict : CapabilityVerdict} :
    verdict ∈ capabilityVerdicts texts record envelope facts ↔
      verdict = expiryVerdict texts record envelope ∨ verdict = eventTypeVerdict record envelope ∨
        verdict = toolNameVerdict record envelope facts ∨
          (ChargesMoney record ∧ (verdict = amountVerdict texts envelope facts ∨
            verdict = counterpartyVerdict envelope facts)) := by
  unfold capabilityVerdicts ChargesMoney
  split
  · next happlies => simp [happlies]
  · next hother => simp [hother]

/-- An envelope without constraints gets the verdicts of no envelope. -/
theorem resolveCapabilityCheck_some (texts : NumberText) (record : AtribRecord)
    (envelope : CapabilityEnvelope) (facts : Option ResolvedCapabilityFacts) :
    ((resolveCapabilityCheck texts record (some envelope) facts).inEnvelope = true ↔
        ∀ verdict ∈ capabilityVerdicts texts record envelope (facts.getD {}),
          ¬verdict.mismatch? ≠ none) ∧
      ((resolveCapabilityCheck texts record (some envelope) facts).unresolvable = true ↔
        .unresolvable ∈ capabilityVerdicts texts record envelope (facts.getD {})) := by
  by_cases hempty : envelope = {}
  · subst hempty
    have hnone : ∀ verdict ∈ capabilityVerdicts texts record {} (facts.getD {}),
        verdict = .none := by
      intro verdict hverdict
      rcases List.mem_append.1 hverdict with h | h
      · simpa [expiryVerdict, eventTypeVerdict, toolNameVerdict, allowlist?] using h
      · split at h
        · simpa [amountVerdict, counterpartyVerdict, allowlist?] using h
        · cases h
    have hcheck : resolveCapabilityCheck texts record (some {}) facts =
        { envelope := none, inEnvelope := true, mismatches := [], unresolvable := false } := rfl
    rw [hcheck]
    refine ⟨iff_of_true rfl fun verdict hverdict => ?_, iff_of_false nofun fun hmem => ?_⟩
    · rw [hnone verdict hverdict]
      exact fun h => h rfl
    · cases hnone _ hmem
  · have hsome : (some envelope).filter (· ≠ {}) = some envelope :=
      if_pos (decide_eq_true hempty)
    simp only [resolveCapabilityCheck, hsome, decide_eq_true_eq, List.filterMap_eq_nil_iff,
      List.contains_iff_mem, not_not, ne_eq, and_self]

/-- Where every list that is there has members, a record is in the envelope exactly if that has
not expired and no constraint is violated, and facts are missing exactly if a constraint on the
record needs them. -/
theorem capability_check_exact (texts : NumberText) (record : AtribRecord)
    (envelope : CapabilityEnvelope) (facts : Option ResolvedCapabilityFacts)
    (h : ListsNonempty envelope) :
    ((resolveCapabilityCheck texts record (some envelope) facts).inEnvelope = true ↔
        ¬Expired record envelope ∧ ¬Violated record envelope (facts.getD {})) ∧
      ((resolveCapabilityCheck texts record (some envelope) facts).unresolvable = true ↔
        Missing record envelope (facts.getD {})) := by
  obtain ⟨hin, hunresolvable⟩ := resolveCapabilityCheck_some texts record envelope facts
  rw [hin, hunresolvable]
  generalize facts.getD {} = facts
  simp only [mem_capabilityVerdicts]
  constructor
  · constructor
    · intro hall
      refine ⟨fun hexpired => hall _ (.inl rfl) (expiryVerdict_mismatch.2 hexpired), ?_⟩
      intro hviolated
      cases hviolated with
      | eventType types hlist hnot =>
          exact hall _ (.inr (.inl rfl)) ((eventTypeVerdict_mismatch h).2 ⟨types, hlist, hnot⟩)
      | toolName names name hlist happlies hname hnot =>
          exact hall _ (.inr (.inr (.inl rfl)))
            ((toolNameVerdict_mismatch h).2 ⟨names, name, hlist, happlies, hname, hnot⟩)
      | currency bound amount hbound happlies hamount hnot =>
          exact hall _ (.inr (.inr (.inr ⟨happlies, .inl rfl⟩)))
            (amountVerdict_mismatch.2 ⟨bound, amount, hbound, hamount, .inl hnot⟩)
      | amount bound amount hbound happlies hamount hnot =>
          exact hall _ (.inr (.inr (.inr ⟨happlies, .inl rfl⟩)))
            (amountVerdict_mismatch.2 ⟨bound, amount, hbound, hamount, .inr hnot⟩)
      | counterparty names name hlist happlies hname hnot =>
          exact hall _ (.inr (.inr (.inr ⟨happlies, .inr rfl⟩)))
            ((counterpartyVerdict_mismatch h).2 ⟨names, name, hlist, hname, hnot⟩)
    · rintro ⟨hexpired, hviolated⟩ verdict (rfl | rfl | rfl | ⟨happlies, rfl | rfl⟩) hne
      · exact hexpired (expiryVerdict_mismatch.1 hne)
      · obtain ⟨types, hlist, hnot⟩ := (eventTypeVerdict_mismatch h).1 hne
        exact hviolated (.eventType types hlist hnot)
      · obtain ⟨names, name, hlist, happlies, hname, hnot⟩ := (toolNameVerdict_mismatch h).1 hne
        exact hviolated (.toolName names name hlist happlies hname hnot)
      · obtain ⟨bound, amount, hbound, hamount, hor⟩ := amountVerdict_mismatch.1 hne
        rcases hor with hnot | hnot
        · exact hviolated (.currency bound amount hbound happlies hamount hnot)
        · exact hviolated (.amount bound amount hbound happlies hamount hnot)
      · obtain ⟨names, name, hlist, hname, hnot⟩ := (counterpartyVerdict_mismatch h).1 hne
        exact hviolated (.counterparty names name hlist happlies hname hnot)
  · constructor
    · rintro (heq | heq | heq | ⟨happlies, heq | heq⟩)
      · exact absurd heq.symm expiryVerdict_ne
      · exact absurd heq.symm eventTypeVerdict_ne
      · obtain ⟨hlist, happlies, hname⟩ := (toolNameVerdict_eq h).1 heq.symm
        exact .toolName hlist happlies hname
      · obtain ⟨hbound, hamount⟩ := amountVerdict_eq.1 heq.symm
        exact .amount hbound happlies hamount
      · obtain ⟨hlist, hname⟩ := (counterpartyVerdict_eq h).1 heq.symm
        exact .counterparty hlist happlies hname
    · intro hmissing
      cases hmissing with
      | toolName hlist happlies hname =>
          exact .inr (.inr (.inl ((toolNameVerdict_eq h).2 ⟨hlist, happlies, hname⟩).symm))
      | amount hbound happlies hamount =>
          exact .inr (.inr (.inr ⟨happlies, .inl (amountVerdict_eq.2 ⟨hbound, hamount⟩).symm⟩))
      | counterparty hlist happlies hname =>
          exact .inr (.inr (.inr
            ⟨happlies, .inr ((counterpartyVerdict_eq h).2 ⟨hlist, hname⟩).symm⟩))

end

namespace CapabilitySample

def texts : NumberText where
  toText _ := "0"
  ofText _ := .finite 0
  bigInt _ := none

def record : AtribRecord where
  creatorKey := ""
  chainRoot := ""
  eventType := "https://atrib.dev/v1/types/tool_call"
  contextId := ""
  timestamp := 2
  rest := [("tool_name", "search")]

end CapabilitySample

open CapabilitySample in
theorem capability_check_exact_tool :
    (resolveCapabilityCheck texts record
      (some { toolNames := some ["browse"] }) none).inEnvelope = false := by
  refine Bool.eq_false_iff.2 fun hin => ?_
  refine (((capability_check_exact texts record { toolNames := some ["browse"] } none
    ⟨nofun, nofun, nofun⟩).1).1 hin).2 ?_
  exact .toolName ["browse"] "search" rfl rfl (by decide) (by decide)

open CapabilitySample in
/-- An expired envelope without any constraint puts a record out of it. -/
theorem expired_out_of_envelope :
    ¬∀ (record : AtribRecord) (envelope : CapabilityEnvelope)
      (facts : Option ResolvedCapabilityFacts),
      (resolveCapabilityCheck texts record (some envelope) facts).inEnvelope = true ↔
        Expired record envelope ∨ ¬Violated record envelope (facts.getD {}) := by
  intro h
  have hexpired : Expired record { expiresAt := some (.finite 1) } :=
    ⟨.finite 1, rfl, by decide +kernel⟩
  have hout : (resolveCapabilityCheck texts record
      (some { expiresAt := some (.finite 1) }) none).inEnvelope = false := by decide +kernel
  exact Bool.false_ne_true (hout.symm.trans ((h record _ none).2 (.inl hexpired)))

end Atrib.Verify
