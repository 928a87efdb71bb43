import Atrib.Proofs.LineItems

/-!
# What a passed evaluation of mandates has held to

The checks pass exactly where there is a constraint, and each is of a type that
is known and met as it is read. A bound on an amount that is no integer is read
as such, but a currency, a date or a compared field that is no text is read as if
it were not there, and so are constraints that are not disclosed. So a passed
evaluation holds to all that the mandates say exactly where nothing of that
kind stands in them.
-/

namespace Atrib.Verify

open Lib (InsertionMap JsNumber JsValue bind_eq_ok mapM_bind_eq_ok mapM_cons_eq_ok mapM_forall)

/-! ## What can be read -/

def AbsentOrText (value : JsValue) : Prop := value = .undefined ∨ ∃ text, value = .string text

def AbsentOrInteger (value : JsValue) : Prop :=
  value = .undefined ∨ ∃ n, safeIntegerOf value = some n

def AbsentOrDate (platform : MandatePlatform) (value : JsValue) : Prop :=
  value = .undefined ∨ ∃ text time, value = .string text ∧ platform.parseDate text = some time

/-- A list of objects whose fields, where they are there, are texts. -/
def EntityList (fields : List String) (value : JsValue) : Prop :=
  ∃ entries : List JsonRecord, value = .array (entries.map .object) ∧
    ∀ entry ∈ entries, ∀ field ∈ fields, AbsentOrText (entry.field field)

/-- The types with a list of what is allowed, the member of a closed payment mandate that is
held against it, and the fields that are compared. -/
def allowedTargets : List (String × String × List String) :=
  [("payment.allowed_payees", "payee", payeeFields),
    ("payment.allowed_payment_instruments", "payment_instrument", paymentInstrumentFields),
    ("payment.allowed_pisps", "pisp", pispFields)]

/-- The limits that a constraint carries are absent or well formed. -/
structure LimitsReadable (platform : MandatePlatform) (constraint : JsonRecord) : Prop where
  bounds : constraintType constraint = "payment.amount_range" →
    AbsentOrInteger (constraint.field "min") ∧ AbsentOrInteger (constraint.field "max")
  currency : constraintType constraint = "payment.amount_range" →
    AbsentOrText (constraint.field "currency")
  window : constraintType constraint = "payment.execution_date" →
    AbsentOrDate platform (constraint.field "not_before") ∧
      AbsentOrDate platform (constraint.field "not_after")
  allowed : ∀ target ∈ allowedTargets, constraintType constraint = target.1 →
    EntityList target.2.2 (constraint.field "allowed")
  merchants : constraintType constraint = "checkout.allowed_merchants" →
    EntityList payeeFields (constraint.field "allowed")

/-- It is not itself left undisclosed, and what it says of constraints is a list of objects. -/
def ConstraintsReadable (mandate : JsonRecord) : Prop :=
  ¬ (mandate.length = 1 ∧ ∃ digest, mandate.field "..." = .string digest) ∧
    (mandate.field "constraints" = .undefined ∨
      ∃ constraints : List JsonRecord, mandate.field "constraints" = .array (constraints.map .object))

/-! ## What is met -/

structure AmountWithin (constraint mandate : JsonRecord) (amount : ℤ) (currency : String) :
    Prop where
  read : paymentAmount mandate = some (amount, currency)
  currency : ∀ text, constraint.field "currency" = .string text → text = currency
  min : ∀ min, safeIntegerOf (constraint.field "min") = some min → min ≤ amount
  max : ∀ max, safeIntegerOf (constraint.field "max") = some max → amount ≤ max

structure DateWithin (platform : MandatePlatform) (constraint : JsonRecord) (time : ℚ) : Prop where
  lower : ∀ text, constraint.field "not_before" = .string text →
    ∃ lowerTime, platform.parseDate text = some lowerTime ∧ lowerTime ≤ time
  upper : ∀ text, constraint.field "not_after" = .string text →
    ∃ upperTime, platform.parseDate text = some upperTime ∧ time ≤ upperTime

/-- A payment constraint of a known type that each closed mandate meets. -/
inductive PaymentMet (platform : MandatePlatform) (constraint : JsonRecord)
    (closedPaymentMandates : List JsonRecord) (nowSeconds : JsNumber)
    (checkoutPaymentBindingOk : Option Bool) (openCheckoutMandateDigests : List String) : Prop
  | amountRange (htype : constraintType constraint = "payment.amount_range")
      (hmin : AbsentOrInteger (constraint.field "min"))
      (hmax : AbsentOrInteger (constraint.field "max"))
      (hwithin : ∀ mandate ∈ closedPaymentMandates,
        ∃ amount currency, AmountWithin constraint mandate amount currency)
  | allowed (target : String × String × List String) (htarget : target ∈ allowedTargets)
      (htype : constraintType constraint = target.1)
      (hmatches : ∀ mandate ∈ closedPaymentMandates,
        anyEntityMatches (constraint.field "allowed") (mandate.field target.2.1) target.2.2 =
          some true)
  | reference (htype : constraintType constraint = "payment.reference") (digest : String)
      (hdigest : constraint.field "conditional_transaction_id" = .string digest)
      (hmem : digest ∈ openCheckoutMandateDigests)
      (hbinding : checkoutPaymentBindingOk = some true)
  | executionDate (htype : constraintType constraint = "payment.execution_date")
      (immediateExecutionDate : String)
      (hnow : platform.isoDate nowSeconds = .ok immediateExecutionDate)
      (hwithin : ∀ mandate ∈ closedPaymentMandates, ∃ time,
        platform.parseDate (executionDate immediateExecutionDate mandate) = some time ∧
          DateWithin platform constraint time)

/-- A checkout constraint of a known type that the checkout meets. -/
inductive CheckoutMet (constraint : JsonRecord) (checkoutPayload : Option JsonRecord)
    (closedPaymentMandates : List JsonRecord) : Prop
  | merchants (htype : constraintType constraint = "checkout.allowed_merchants")
      (hmatches : anyEntityMatches (constraint.field "allowed")
        (checkoutMerchant checkoutPayload closedPaymentMandates) payeeFields = some true)
  | lineItems (htype : constraintType constraint = "checkout.line_items")
      (requirements : List LineItemRequirement) (checkoutQuantities : InsertionMap String ℕ)
      (hread : LineItemsRead constraint checkoutPayload requirements checkoutQuantities)
      (hmatches : Matches requirements checkoutQuantities)

/-! ## Loops -/

/-- A loop that returns on the first closed mandate that does not meet a constraint. -/
theorem findSome_passed {mandates : List JsonRecord}
    {f : JsonRecord → Option Ap2MandateConstraintCheck} {check : Ap2MandateConstraintCheck}
    (hcheck : check.status = .passed)
    (hf : ∀ mandate problem, f mandate = some problem → problem.status ≠ .passed) :
    ((mandates.findSome? f).getD check).status = .passed ↔ ∀ mandate ∈ mandates, f mandate = none := by
  rw [← List.findSome?_eq_none_iff]
  cases hfound : mandates.findSome? f with
  | none => exact iff_of_true hcheck rfl
  | some problem =>
      obtain ⟨mandate, -, hmandate⟩ := List.exists_of_findSome?_eq_some hfound
      exact iff_of_false (hf mandate problem hmandate) nofun

theorem summarize_passed {checks : List Ap2MandateConstraintCheck} :
    summarizeConstraintChecks checks = .passed ↔
      checks ≠ [] ∧ ∀ check ∈ checks, check.status = .passed := by
  unfold summarizeConstraintChecks
  constructor
  · intro h
    split at h
    · cases h
    · next hnonempty =>
        split at h
        · cases h
        · next hfailed =>
            split at h
            · cases h
            · next hunresolved =>
                refine ⟨fun hnil => hnonempty (hnil ▸ rfl), fun check hcheck => ?_⟩
                cases hstatus : check.status with
                | passed => rfl
                | failed =>
                    exact absurd (List.any_eq_true.2 ⟨check, hcheck, decide_eq_true hstatus⟩)
                      hfailed
                | unresolved =>
                    exact absurd (List.any_eq_true.2
                      ⟨check, hcheck, decide_eq_true (.inl hstatus)⟩) hunresolved
                | unsupported =>
                    exact absurd (List.any_eq_true.2
                      ⟨check, hcheck, decide_eq_true (.inr hstatus)⟩) hunresolved
  · rintro ⟨hnonempty, hall⟩
    rw [if_neg fun hempty => hnonempty (List.isEmpty_iff.1 hempty), if_neg, if_neg]
    · intro hany
      obtain ⟨check, hcheck, hstatus⟩ := List.any_eq_true.1 hany
      rw [hall check hcheck] at hstatus
      exact (of_decide_eq_true hstatus).elim nofun nofun
    · intro hany
      obtain ⟨check, hcheck, hstatus⟩ := List.any_eq_true.1 hany
      rw [hall check hcheck] at hstatus
      cases of_decide_eq_true hstatus

/-! ## Checks that pass -/

theorem optionalIntegerBound_eq_some {value : JsValue} {bound : Option ℤ} :
    optionalIntegerBound value = some bound ↔
      (value = .undefined ∧ bound = none) ∨
        ∃ n, safeIntegerOf value = some n ∧ bound = some n := by
  cases value with
  | undefined => simp [optionalIntegerBound, safeIntegerOf, eq_comm]
  | _ => simp [optionalIntegerBound, eq_comm]

theorem absentOrInteger_iff {value : JsValue} :
    AbsentOrInteger value ↔ ∃ bound, optionalIntegerBound value = some bound := by
  simp only [optionalIntegerBound_eq_some]
  constructor
  · rintro (h | ⟨n, h⟩)
    · exact ⟨none, .inl ⟨h, rfl⟩⟩
    · exact ⟨some n, .inr ⟨n, h, rfl⟩⟩
  · rintro ⟨bound, ⟨h, -⟩ | ⟨n, h, -⟩⟩
    · exact .inl h
    · exact .inr ⟨n, h⟩

/-- A bound as it is read. -/
theorem optionalIntegerBound_eq {value : JsValue} {bound : Option ℤ}
    (h : optionalIntegerBound value = some bound) : safeIntegerOf value = bound := by
  rcases optionalIntegerBound_eq_some.1 h with ⟨rfl, rfl⟩ | ⟨n, hn, rfl⟩
  · rfl
  · exact hn

theorem amountProblem_eq_none {constraint mandate : JsonRecord} {min max : Option ℤ}
    (hmin : safeIntegerOf (constraint.field "min") = min)
    (hmax : safeIntegerOf (constraint.field "max") = max) :
    amountProblem constraint min max mandate = none ↔
      ∃ amount currency, AmountWithin constraint mandate amount currency := by
  unfold amountProblem
  cases hamount : paymentAmount mandate with
  | none =>
      refine iff_of_false nofun ?_
      rintro ⟨amount, currency, h⟩
      cases hamount.symm.trans h.read
  | some read =>
      obtain ⟨amount, currency⟩ := read
      dsimp only
      constructor
      · intro h
        split at h
        · cases h
        · next hcurrency =>
            split at h
            · cases h
            · next hlow =>
                split at h
                · cases h
                · next hhigh =>
                    refine ⟨amount, currency, hamount, fun text htext => ?_, fun m hm => ?_,
                      fun m hm => ?_⟩
                    · rw [JsValue.string?_eq_some.2 htext] at hcurrency
                      simpa using hcurrency
                    · rw [← hmin, hm] at hlow
                      simpa using hlow
                    · rw [← hmax, hm] at hhigh
                      simpa using hhigh
      · rintro ⟨amount', currency', h⟩
        obtain ⟨rfl, rfl⟩ := Prod.mk.inj (Option.some.inj (hamount.symm.trans h.read))
        rw [if_neg, if_neg, if_neg]
        · intro hhigh
          obtain ⟨m, hm, hlt⟩ := (Option.any_eq_true _ _).1 hhigh
          exact absurd (h.max m (hmax.trans hm)) (not_le.2 (of_decide_eq_true hlt))
        · intro hlow
          obtain ⟨m, hm, hlt⟩ := (Option.any_eq_true _ _).1 hlow
          exact absurd (h.min m (hmin.trans hm)) (not_le.2 (of_decide_eq_true hlt))
        · intro hcurrency
          obtain ⟨text, htext, hne⟩ := (Option.any_eq_true _ _).1 hcurrency
          exact absurd (h.currency text (JsValue.string?_eq_some.1 htext)) (of_decide_eq_true hne)

theorem amountProblem_status {constraint mandate : JsonRecord} {min max : Option ℤ}
    {problem : Ap2MandateConstraintCheck}
    (h : amountProblem constraint min max mandate = some problem) : problem.status ≠ .passed := by
  unfold amountProblem at h
  repeat' split at h
  all_goals cases h
  all_goals nofun

theorem evaluateAmountRange_passed {constraint : JsonRecord} {mandates : List JsonRecord} :
    (evaluateAmountRange constraint mandates).status = .passed ↔
      AbsentOrInteger (constraint.field "min") ∧ AbsentOrInteger (constraint.field "max") ∧
        ∀ mandate ∈ mandates, ∃ amount currency,
          AmountWithin constraint mandate amount currency := by
  rw [absentOrInteger_iff, absentOrInteger_iff]
  unfold evaluateAmountRange
  split
  · next min max hmin hmax =>
      rw [findSome_passed rfl fun mandate problem => amountProblem_status]
      simp only [amountProblem_eq_none (optionalIntegerBound_eq hmin)
        (optionalIntegerBound_eq hmax), hmin, hmax]
      simp
  · next hnone =>
      refine iff_of_false nofun ?_
      rintro ⟨⟨min, hmin⟩, ⟨max, hmax⟩, -⟩
      exact hnone min max hmin hmax

theorem evaluateAllowed_passed {constraint : JsonRecord} {mandates : List JsonRecord}
    {target : String} {fields : List String} :
    (evaluateAllowed constraint mandates target fields).status = .passed ↔
      ∀ mandate ∈ mandates,
        anyEntityMatches (constraint.field "allowed") (mandate.field target) fields =
          some true := by
  rw [evaluateAllowed, findSome_passed rfl]
  · refine forall₂_congr fun mandate _ => ?_
    split <;> simp_all
  · intro mandate problem h
    split at h <;> cases h <;> nofun

theorem evaluateReference_passed {constraint : JsonRecord} {binding : Option Bool}
    {digests : List String} :
    (evaluateReference constraint binding digests).status = .passed ↔
      ∃ digest, constraint.field "conditional_transaction_id" = .string digest ∧
        digest ∈ digests ∧ binding = some true := by
  unfold evaluateReference
  split
  · next digest hdigest =>
      split
      · next hempty =>
          refine iff_of_false nofun ?_
          rintro ⟨other, -, hmem, -⟩
          rw [List.isEmpty_iff.1 hempty] at hmem
          cases hmem
      · split
        · next hmem =>
            refine iff_of_false nofun ?_
            rintro ⟨other, hother, hin, -⟩
            exact hmem (JsValue.string.inj (hdigest.symm.trans hother) ▸ hin)
        · next hmem =>
            split
            · exact iff_of_false nofun nofun
            · exact iff_of_false nofun nofun
            · exact iff_of_true rfl ⟨digest, hdigest, not_not.1 hmem, rfl⟩
  · next hnone =>
      refine iff_of_false nofun ?_
      rintro ⟨digest, hdigest, -⟩
      exact hnone digest hdigest

theorem passesDate_eq_false {platform : MandatePlatform} {passes : ℚ → Bool} {value : JsValue} :
    passesDate platform passes value = false ↔ ∀ text, value = .string text →
      ∃ bound, platform.parseDate text = some bound ∧ passes bound = false := by
  cases value with
  | string text =>
      simp only [passesDate, JsValue.string.injEq, forall_eq']
      cases platform.parseDate text <;> simp
  | _ => exact iff_of_true rfl nofun

theorem compareIsoDate_eq_true {platform : MandatePlatform} {value : String}
    {constraint : JsonRecord} :
    compareIsoDate platform value (constraint.field "not_before") (constraint.field "not_after") =
        some true ↔
      ∃ time, platform.parseDate value = some time ∧ DateWithin platform constraint time := by
  have hwithin : ∀ time, DateWithin platform constraint time ↔
      passesDate platform (fun lower => decide (time < lower)) (constraint.field "not_before") =
          false ∧
        passesDate platform (fun upper => decide (upper < time)) (constraint.field "not_after") =
          false := by
    intro time
    simp only [passesDate_eq_false, decide_eq_false_iff_not, not_lt]
    exact ⟨fun h => ⟨h.lower, h.upper⟩, fun h => ⟨h.1, h.2⟩⟩
  simp [compareIsoDate, hwithin]

theorem evaluateExecutionDate_passed {platform : MandatePlatform} {constraint : JsonRecord}
    {mandates : List JsonRecord} {immediate : String} :
    (evaluateExecutionDate platform constraint mandates immediate).status = .passed ↔
      ∀ mandate ∈ mandates, ∃ time,
        platform.parseDate (executionDate immediate mandate) = some time ∧
          DateWithin platform constraint time := by
  rw [evaluateExecutionDate, findSome_passed rfl]
  · refine forall₂_congr fun mandate _ => ?_
    rw [← compareIsoDate_eq_true]
    split <;> simp_all
  · intro mandate problem h
    split at h <;> cases h <;> nofun

/-! ## Constraints -/

theorem evaluatePaymentConstraint_passed {platform : MandatePlatform} {constraint : JsonRecord}
    {mandates : List JsonRecord} {now : JsNumber} {binding : Option Bool} {digests : List String} :
    (∃ check, evaluatePaymentConstraint platform constraint mandates now binding digests =
        .ok check ∧ check.status = .passed) ↔
      mandates ≠ [] ∧ PaymentMet platform constraint mandates now binding digests := by
  by_cases hempty : mandates = []
  · rw [evaluatePaymentConstraint, if_pos (List.isEmpty_iff.2 hempty)]
    refine iff_of_false ?_ fun h => h.1 hempty
    rintro ⟨check, ⟨⟩, hstatus⟩
    cases hstatus
  rw [and_iff_right hempty]
  constructor
  · rintro ⟨check, hcheck, hstatus⟩
    simp only [evaluatePaymentConstraint] at hcheck
    rw [if_neg fun h => hempty (List.isEmpty_iff.1 h)] at hcheck
    split at hcheck
    · next htype =>
        cases hcheck
        obtain ⟨hmin, hmax, hwithin⟩ := evaluateAmountRange_passed.1 hstatus
        exact .amountRange htype hmin hmax hwithin
    split at hcheck
    · next htype =>
        cases hcheck
        exact .allowed ("payment.allowed_payees", "payee", payeeFields) (by simp [allowedTargets])
          htype (evaluateAllowed_passed.1 hstatus)
    split at hcheck
    · next htype =>
        cases hcheck
        exact .allowed ("payment.allowed_payment_instruments", "payment_instrument",
          paymentInstrumentFields) (by simp [allowedTargets]) htype
            (evaluateAllowed_passed.1 hstatus)
    split at hcheck
    · next htype =>
        cases hcheck
        exact .allowed ("payment.allowed_pisps", "pisp", pispFields) (by simp [allowedTargets])
          htype (evaluateAllowed_passed.1 hstatus)
    split at hcheck
    · next htype =>
        cases hcheck
        obtain ⟨digest, hdigest, hmem, hbinding⟩ := evaluateReference_passed.1 hstatus
        exact .reference htype digest hdigest hmem hbinding
    split at hcheck
    · next htype =>
        obtain ⟨immediate, hnow, hcheck⟩ := bind_eq_ok.1 hcheck
        cases hcheck
        exact .executionDate htype immediate hnow (evaluateExecutionDate_passed.1 hstatus)
    · cases hcheck
      cases hstatus
  · intro hmet
    simp only [evaluatePaymentConstraint]
    rw [if_neg fun h => hempty (List.isEmpty_iff.1 h)]
    cases hmet with
    | amountRange htype hmin hmax hwithin =>
        rw [if_pos htype]
        exact ⟨_, rfl, evaluateAmountRange_passed.2 ⟨hmin, hmax, hwithin⟩⟩
    | allowed target htarget htype hmatches =>
        simp only [allowedTargets, List.mem_cons, List.not_mem_nil, or_false] at htarget
        rcases htarget with rfl | rfl | rfl
        all_goals simp only [htype]
        all_goals exact ⟨_, rfl, evaluateAllowed_passed.2 hmatches⟩
    | reference htype digest hdigest hmem hbinding =>
        simp only [htype]
        exact ⟨_, rfl, evaluateReference_passed.2 ⟨digest, hdigest, hmem, hbinding⟩⟩
    | executionDate htype immediate hnow hwithin =>
        simp only [htype, hnow]
        exact ⟨_, rfl, evaluateExecutionDate_passed.2 hwithin⟩

theorem evaluateCheckoutConstraint_passed {constraint : JsonRecord}
    {checkoutPayload : Option JsonRecord} {mandates : List JsonRecord} :
    (evaluateCheckoutConstraint constraint checkoutPayload mandates).status = .passed ↔
      CheckoutMet constraint checkoutPayload mandates := by
  simp only [evaluateCheckoutConstraint]
  constructor
  · intro h
    split at h
    · next htype =>
        refine .merchants htype ?_
        unfold evaluateMerchants at h
        split at h
        · cases h
        · cases h
        · assumption
    split at h
    · next htype =>
        obtain ⟨requirements, quantities, hread, hmatches⟩ := evaluateLineItems_passed.1 h
        exact .lineItems htype requirements quantities hread hmatches
    · cases h
  · intro hmet
    cases hmet with
    | merchants htype hmatches =>
        rw [if_pos htype, evaluateMerchants, hmatches]
        rfl
    | lineItems htype requirements quantities hread hmatches =>
        rw [if_neg (by rw [htype]; decide), if_pos htype]
        exact evaluateLineItems_passed.2 ⟨requirements, quantities, hread, hmatches⟩

/-! ## The evaluation -/

/-- What an evaluation reads, with what is disclosed put in. -/
structure MandateReading where
  openCheckoutMandates : List JsonRecord
  openPaymentMandates : List JsonRecord
  closedPaymentMandates : List JsonRecord
  checkoutPayload : Option JsonRecord
  checkoutConstraints : List JsonRecord
  paymentConstraints : List JsonRecord

section

variable (platform : MandatePlatform) (input : Ap2MandateConstraintInput)
  (disclosures : InsertionMap String JsValue)

structure Reads (reading : MandateReading) : Prop where
  openCheckoutMandates : resolveMandates platform disclosures input.openCheckoutMandates =
    .ok reading.openCheckoutMandates
  openPaymentMandates : resolveMandates platform disclosures input.openPaymentMandates =
    .ok reading.openPaymentMandates
  closedPaymentMandates : resolveMandates platform disclosures input.closedPaymentMandates =
    .ok reading.closedPaymentMandates
  checkoutPayload : ∃ closedCheckoutMandates resolvedCheckoutPayload,
    resolveMandates platform disclosures input.closedCheckoutMandates =
        .ok closedCheckoutMandates ∧
      resolveDisclosureRefs disclosures platform.frames input.checkoutPayload =
        .ok resolvedCheckoutPayload ∧
      resolveCheckoutPayload platform resolvedCheckoutPayload closedCheckoutMandates =
        reading.checkoutPayload
  checkoutConstraints : (reading.openCheckoutMandates.flatMap getConstraintObjects).mapM
    (resolveConstraint platform disclosures) = .ok reading.checkoutConstraints
  paymentConstraints : (reading.openPaymentMandates.flatMap getConstraintObjects).mapM
    (resolveConstraint platform disclosures) = .ok reading.paymentConstraints

/-- There is a constraint, and each is of a known type and met as it is read. -/
structure Met (reading : MandateReading) : Prop where
  nonempty : reading.checkoutConstraints ++ reading.paymentConstraints ≠ []
  checkout : ∀ constraint ∈ reading.checkoutConstraints,
    CheckoutMet constraint reading.checkoutPayload reading.closedPaymentMandates
  payment : ∀ constraint ∈ reading.paymentConstraints,
    reading.closedPaymentMandates ≠ [] ∧
      PaymentMet platform constraint reading.closedPaymentMandates
        (input.nowSeconds.getD platform.nowSeconds) input.checkoutPaymentBindingOk
        input.openCheckoutMandateDigests

/-- Nothing that is read is malformed or left undisclosed. -/
structure Readable (reading : MandateReading) : Prop where
  constraints : ∀ mandate ∈ reading.openCheckoutMandates ++ reading.openPaymentMandates,
    ConstraintsReadable mandate
  limits : ∀ constraint ∈ reading.checkoutConstraints ++ reading.paymentConstraints,
    LimitsReadable platform constraint
  dates : ∀ constraint ∈ reading.paymentConstraints,
    constraintType constraint = "payment.execution_date" →
      ∀ mandate ∈ reading.closedPaymentMandates, AbsentOrText (mandate.field "execution_date")

/-- A passed evaluation has read limits that are well formed, and found them met. -/
def FailsClosed : Prop :=
  ∀ evaluation, evaluateAp2ViConstraints platform input disclosures = .ok evaluation →
    evaluation.status = .passed →
      ∃ reading, Reads platform input disclosures reading ∧ Met platform input reading ∧
        Readable platform reading

end

section

variable {platform : MandatePlatform} {input : Ap2MandateConstraintInput}
  {disclosures : InsertionMap String JsValue}

theorem Reads.unique {reading reading' : MandateReading}
    (h : Reads platform input disclosures reading)
    (h' : Reads platform input disclosures reading') : reading = reading' := by
  obtain ⟨checkout, payment, closed, payload, cs, ps⟩ := reading
  obtain ⟨checkout', payment', closed', payload', cs', ps'⟩ := reading'
  obtain rfl : checkout = checkout' :=
    Except.ok.inj (h.openCheckoutMandates.symm.trans h'.openCheckoutMandates)
  obtain rfl : payment = payment' :=
    Except.ok.inj (h.openPaymentMandates.symm.trans h'.openPaymentMandates)
  obtain rfl : closed = closed' :=
    Except.ok.inj (h.closedPaymentMandates.symm.trans h'.closedPaymentMandates)
  obtain rfl : cs = cs' :=
    Except.ok.inj (h.checkoutConstraints.symm.trans h'.checkoutConstraints)
  obtain rfl : ps = ps' := Except.ok.inj (h.paymentConstraints.symm.trans h'.paymentConstraints)
  obtain ⟨mandates, resolved, hmandates, hresolved, hpayload⟩ := h.checkoutPayload
  obtain ⟨mandates', resolved', hmandates', hresolved', hpayload'⟩ := h'.checkoutPayload
  obtain rfl := Except.ok.inj (hmandates.symm.trans hmandates')
  obtain rfl := Except.ok.inj (hresolved.symm.trans hresolved')
  obtain rfl : payload = payload' := hpayload.symm.trans hpayload'
  rfl

theorem eq_nil_of_mapM {α β : Type} {f : α → Except String β} {xs : List α}
    (h : xs.mapM f = .ok []) : xs = [] := by
  cases xs with
  | nil => rfl
  | cons x xs =>
      obtain ⟨y, ys, -, -, hnil⟩ := mapM_cons_eq_ok.1 h
      cases hnil

theorem evaluate_passed :
    (∃ evaluation, evaluateAp2ViConstraints platform input disclosures = .ok evaluation ∧
        evaluation.status = .passed) ↔
      ∃ reading, Reads platform input disclosures reading ∧ Met platform input reading := by
  unfold evaluateAp2ViConstraints
  constructor
  · rintro ⟨evaluation, heval, hstatus⟩
    obtain ⟨openCheckout, hopenCheckout, heval⟩ := bind_eq_ok.1 heval
    obtain ⟨closedCheckout, hclosedCheckout, heval⟩ := bind_eq_ok.1 heval
    obtain ⟨openPayment, hopenPayment, heval⟩ := bind_eq_ok.1 heval
    obtain ⟨closedPayment, hclosedPayment, heval⟩ := bind_eq_ok.1 heval
    obtain ⟨resolvedPayload, hresolved, heval⟩ := bind_eq_ok.1 heval
    obtain ⟨checkoutChecks, hcheckout, heval⟩ := bind_eq_ok.1 heval
    obtain ⟨paymentChecks, hpayment, heval⟩ := bind_eq_ok.1 heval
    obtain rfl := Except.ok.inj heval
    obtain ⟨hnonempty, hall⟩ := summarize_passed.1 hstatus
    obtain ⟨checkoutConstraints, hcheckoutConstraints, hcheckout⟩ := mapM_bind_eq_ok.1 hcheckout
    obtain ⟨paymentConstraints, hpaymentConstraints, hpayment⟩ := mapM_bind_eq_ok.1 hpayment
    have hcheckoutAll := mapM_forall.1 ⟨checkoutChecks, hcheckout,
      fun check hcheck => hall check (List.mem_append_left _ hcheck)⟩
    have hpaymentAll := mapM_forall.1 ⟨paymentChecks, hpayment,
      fun check hcheck => hall check (List.mem_append_right _ hcheck)⟩
    refine ⟨⟨openCheckout, openPayment, closedPayment, _, checkoutConstraints,
      paymentConstraints⟩, ⟨hopenCheckout, hopenPayment, hclosedPayment,
        ⟨closedCheckout, resolvedPayload, hclosedCheckout, hresolved, rfl⟩,
        hcheckoutConstraints, hpaymentConstraints⟩, fun hnil => hnonempty ?_,
      fun constraint hconstraint => ?_, fun constraint hconstraint => ?_⟩
    · obtain ⟨rfl, rfl⟩ := List.append_eq_nil_iff.1 hnil
      cases hcheckout
      cases hpayment
      rfl
    · obtain ⟨check, hcheck, hpassed⟩ := hcheckoutAll constraint hconstraint
      cases hcheck
      exact evaluateCheckoutConstraint_passed.1 hpassed
    · exact evaluatePaymentConstraint_passed.1 (hpaymentAll constraint hconstraint)
  · rintro ⟨reading, hreads, hmet⟩
    obtain ⟨closedCheckout, resolvedPayload, hclosedCheckout, hresolved, hpayload⟩ :=
      hreads.checkoutPayload
    have hcheckoutMet : ∀ constraint ∈ reading.checkoutConstraints,
        ∃ check, (.ok (evaluateCheckoutConstraint constraint reading.checkoutPayload
            reading.closedPaymentMandates) : Except String Ap2MandateConstraintCheck) =
              .ok check ∧ check.status = .passed :=
      fun constraint hconstraint => ⟨_, rfl, evaluateCheckoutConstraint_passed.2
        (hmet.checkout constraint hconstraint)⟩
    obtain ⟨checkoutChecks, hcheckout, hcheckoutAll⟩ := mapM_forall.2 hcheckoutMet
    obtain ⟨paymentChecks, hpayment, hpaymentAll⟩ := mapM_forall.2
      fun constraint hconstraint => evaluatePaymentConstraint_passed.2
        (hmet.payment constraint hconstraint)
    refine ⟨⟨_, checkoutChecks ++ paymentChecks⟩, bind_eq_ok.2 ⟨_, hreads.openCheckoutMandates,
      bind_eq_ok.2 ⟨_, hclosedCheckout, bind_eq_ok.2 ⟨_, hreads.openPaymentMandates,
        bind_eq_ok.2 ⟨_, hreads.closedPaymentMandates, bind_eq_ok.2 ⟨_, hresolved,
          bind_eq_ok.2 ⟨checkoutChecks, mapM_bind_eq_ok.2
            ⟨_, hreads.checkoutConstraints, hpayload ▸ hcheckout⟩,
            bind_eq_ok.2 ⟨paymentChecks, mapM_bind_eq_ok.2
              ⟨_, hreads.paymentConstraints, hpayment⟩, rfl⟩⟩⟩⟩⟩⟩⟩, ?_⟩
    refine summarize_passed.2 ⟨fun hnil => hmet.nonempty ?_, fun check hcheck => ?_⟩
    · obtain ⟨rfl, rfl⟩ := List.append_eq_nil_iff.1 hnil
      rw [eq_nil_of_mapM hcheckout, eq_nil_of_mapM hpayment]
      rfl
    · exact (List.mem_append.1 hcheck).elim (hcheckoutAll check) (hpaymentAll check)

end

namespace LimitSample

def platform : MandatePlatform where
  parseDate _ := none
  isoDate _ := .error "Invalid time value"
  decodeJwt _ := none
  nowSeconds := .finite 0
  frames := 8

/-- The currency is left undisclosed. -/
def constraint : JsonRecord :=
  [("type", .string "payment.amount_range"), ("currency", .object [("...", .string "digest")]),
    ("max", .number (.finite 100))]

def openMandate : JsonRecord := [("constraints", .array [.object constraint])]

def closedMandate : JsonRecord :=
  [("payment_amount",
    .object [("amount", .number (.finite 50)), ("currency", .string "EUR")])]

def input : Ap2MandateConstraintInput where
  openPaymentMandates := [.object openMandate]
  closedPaymentMandates := [.object closedMandate]

def reading : MandateReading := ⟨[], [openMandate], [closedMandate], none, [], [constraint]⟩

end LimitSample

end Atrib.Verify
