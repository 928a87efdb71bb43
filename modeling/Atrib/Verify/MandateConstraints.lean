import Atrib.Lib.JsValue
import Atrib.Verify.LineItemFlow

/-!
# The constraints of mandates

`evaluateAp2ViConstraints` of `packages/verify/src/ap2-vi-evidence.ts`: what an
open mandate allows is held against the closed mandates and the checkout. All of
it is JSON that others wrote, parts of it disclosed apart; no member is called
`__proto__`. The reading of dates, of a compact JWT and the clock are the
platform's, and so is the depth of the call stack.
-/

namespace Atrib.Verify

open Lib (JsNumber JsValue InsertionMap)

/-- The members of an object. -/
abbrev JsonRecord := List (String × JsValue)

/-- `record[key]` -/
def JsonRecord.field (record : JsonRecord) (key : String) : JsValue :=
  (record.lookup key).getD .undefined

/-- `isRecord(value)` -/
def recordOf : JsValue → Option JsonRecord
  | .object members => some members
  | _ => none

/-- `isSafeInteger(value)` -/
def safeIntegerOf : JsValue → Option ℤ
  | .number (.finite q) => if q.isInt ∧ |q| ≤ MAX_SAFE_INTEGER then some q.num else none
  | _ => none

/-- `isSafeInteger(value) && value >= 0` -/
def safeQuantityOf : JsValue → Option ℕ
  | .number x => x.safeIndex?
  | _ => none

inductive Ap2ConstraintDomain where
  | checkout
  | payment
deriving DecidableEq

def Ap2ConstraintDomain.text : Ap2ConstraintDomain → String
  | .checkout => "checkout"
  | .payment => "payment"

inductive Ap2ConstraintCheckStatus where
  | passed
  | failed
  | unresolved
  | unsupported
deriving DecidableEq

inductive Ap2ConstraintEvaluationStatus where
  | passed
  | failed
  | unresolved
  | notApplicable
deriving DecidableEq

structure Ap2MandateConstraintCheck where
  type : String
  domain : Ap2ConstraintDomain
  status : Ap2ConstraintCheckStatus
  reason : Option String
deriving DecidableEq

/-- The parts that the language and `jose` bring. -/
structure MandatePlatform where
  /-- `Date.parse(value)`, none for what is not a number. -/
  parseDate : String → Option ℚ
  /-- `new Date(seconds * 1000).toISOString()` -/
  isoDate : JsNumber → Except String String
  /-- `decodeJwt(value)`, none where it throws. -/
  decodeJwt : String → Option JsValue
  /-- `Math.floor(Date.now() / 1000)` -/
  nowSeconds : JsNumber
  /-- The calls that the stack has room for. -/
  frames : ℕ

/-- A list that the input lacks is empty. -/
structure Ap2MandateConstraintInput where
  openCheckoutMandates : List JsValue := []
  openCheckoutMandateDigests : List String := []
  closedCheckoutMandates : List JsValue := []
  openPaymentMandates : List JsValue := []
  closedPaymentMandates : List JsValue := []
  checkoutPayload : JsValue := .undefined
  checkoutPaymentBindingOk : Option Bool := none
  nowSeconds : Option JsNumber := none

structure Ap2MandateConstraintEvaluation where
  status : Ap2ConstraintEvaluationStatus
  checks : List Ap2MandateConstraintCheck

/-! ## Reading -/

/-- An entry of the list that is not an object is left out. -/
def getConstraintObjects (mandate : JsonRecord) : List JsonRecord :=
  match mandate.field "constraints" with
  | .array constraints => constraints.filterMap recordOf
  | _ => []

def normalizeConstraintType (value : String) : String :=
  match "mandate.".toList.isPrefixOf? value.toList with
  | some rest => String.ofList rest
  | none => value

/-- The normalized type of a constraint, and the empty text for one without. -/
def constraintType (constraint : JsonRecord) : String :=
  match constraint.field "type" with
  | .string type => normalizeConstraintType type
  | _ => ""

def makeConstraintCheck (constraint : JsonRecord) (domain : Ap2ConstraintDomain)
    (status : Ap2ConstraintCheckStatus) (reason : Option String := none) :
    Ap2MandateConstraintCheck where
  type :=
    match constraint.field "type" with
    | .string type => type
    | _ => domain.text ++ ".unknown"
  domain := domain
  status := status
  reason := reason

/-- A digest that is disclosed is replaced by what it stands for, which may hold it again. -/
def resolveDisclosureRefs (disclosures : InsertionMap String JsValue) :
    ℕ → JsValue → Except String JsValue
  | 0, _ => .error "Maximum call stack size exceeded"
  | frames + 1, .array items => do
      .ok (.array (← items.mapM (resolveDisclosureRefs disclosures frames)))
  | frames + 1, .object record => do
      let disclosed :=
        match JsonRecord.field record "..." with
        | .string digest => if record.length = 1 then some (disclosures.get? digest) else none
        | _ => none
      match disclosed with
      | some (some value) => resolveDisclosureRefs disclosures frames value
      | some none => .ok (.object record)
      | none =>
          .ok (.object (← record.mapM fun member => do
            .ok (member.1, ← resolveDisclosureRefs disclosures frames member.2)))
  | _ + 1, value => .ok value

/-- `fields.filter((field) => isString(left[field]) && isString(right[field]))` -/
def comparableFields (left right : JsonRecord) (fields : List String) : List String :=
  fields.filter fun field =>
    ((left.field field).string?).isSome && ((right.field field).string?).isSome

def entityMatches (left right : JsonRecord) (fields : List String) : Bool :=
  let fieldsToCompare := comparableFields left right fields
  !fieldsToCompare.isEmpty &&
    fieldsToCompare.all fun field => (left.field field).strictEq (right.field field)

/-- None is what cannot be told. -/
def anyEntityMatches (allowed actual : JsValue) (fields : List String) : Option Bool := do
  let allowed ← allowed.array?
  let actual ← recordOf actual
  let allowedRecords := allowed.filterMap recordOf
  if allowedRecords.isEmpty then none
  else some (allowedRecords.any fun candidate => entityMatches candidate actual fields)

def paymentAmount (target : JsonRecord) : Option (ℤ × String) := do
  let amount ← recordOf (target.field "payment_amount")
  let units ← safeIntegerOf (amount.field "amount")
  let currency ← (amount.field "currency").string?
  some (units, currency)

/-- None is a bound that is no safe integer, and an empty bound one that is not there. -/
def optionalIntegerBound : JsValue → Option (Option ℤ)
  | .undefined => some none
  | value => (safeIntegerOf value).map some

/-- A bound that is a text, and is no date or one that is passed. -/
def passesDate (platform : MandatePlatform) (passes : ℚ → Bool) : JsValue → Bool
  | .string bound => (platform.parseDate bound).all passes
  | _ => false

/-- None is a value that is no date. -/
def compareIsoDate (platform : MandatePlatform) (value : String) (lower upper : JsValue) :
    Option Bool :=
  (platform.parseDate value).map fun time =>
    !passesDate platform (fun lowerTime => decide (time < lowerTime)) lower &&
      !passesDate platform (fun upperTime => decide (upperTime < time)) upper

def decodeCompactJwtPayload (platform : MandatePlatform) (value : String) : Option JsonRecord :=
  (platform.decodeJwt value).bind recordOf

def resolveCheckoutPayload (platform : MandatePlatform) (explicitPayload : JsValue)
    (closedCheckoutMandates : List JsonRecord) : Option JsonRecord :=
  match recordOf explicitPayload with
  | some payload => some payload
  | none =>
      closedCheckoutMandates.findSome? fun mandate =>
        match recordOf (mandate.field "checkout_payload") with
        | some payload => some payload
        | none => (mandate.field "checkout_jwt").string?.bind (decodeCompactJwtPayload platform)

/-! ## Line items -/

def checkoutLineItemId (value : JsonRecord) : Option String :=
  let product := recordOf (value.field "product")
  (product.bind fun product => (product.field "id").string?) <|>
    (product.bind fun product => (product.field "sku").string?) <|>
    (value.field "sku").string? <|> (value.field "id").string?

def checkoutLineItems (checkoutPayload : JsonRecord) : Option (List JsValue) :=
  (checkoutPayload.field "line_items").array? <|>
    (recordOf (checkoutPayload.field "cart")).bind fun cart => (cart.field "items").array?

/-- One item in the loop of `checkoutLineItemQuantities`. -/
def addLineItem (quantities : InsertionMap String ℕ) (item : JsValue) :
    Option (InsertionMap String ℕ) := do
  let item ← recordOf item
  let id ← checkoutLineItemId item
  let quantity ← safeQuantityOf (item.field "quantity")
  some (quantities.set id ((quantities.get? id).getD 0 + quantity))

def checkoutLineItemQuantities (checkoutPayload : JsonRecord) :
    Option (InsertionMap String ℕ) := do
  (← checkoutLineItems checkoutPayload).foldlM addLineItem ∅

/-- The identifiers that an entry of `items` accepts; one without a text for its `id` is left
out. -/
def acceptableIdsOf (acceptableItems : List JsValue) : List String :=
  Lib.InsertionSet.ofList (acceptableItems.filterMap fun acceptable =>
    (recordOf acceptable).bind fun acceptable => (acceptable.field "id").string?)

/-- An entry of `items`, or why it cannot be read. -/
def lineItemRequirement (item : JsValue) : Except String LineItemRequirement :=
  match recordOf item with
  | none => .error "requirement"
  | some item =>
      match safeQuantityOf (item.field "quantity") with
      | none => .error "requirement"
      | some quantity =>
          match (item.field "acceptable_items").array? with
          | none => .error "acceptable_items"
          | some acceptableItems =>
              if (acceptableIdsOf acceptableItems).isEmpty then .error "acceptable_items"
              else .ok ⟨quantity, acceptableIdsOf acceptableItems, Lib.InsertionSet.nodup_ofList _⟩

/-! ## Checks -/

/-- One closed mandate in the loop over an amount range. -/
def amountProblem (constraint : JsonRecord) (min max : Option ℤ) (mandate : JsonRecord) :
    Option Ap2MandateConstraintCheck :=
  match paymentAmount mandate with
  | none => some (makeConstraintCheck constraint .payment .unresolved "payment_amount")
  | some (amount, currency) =>
      if (constraint.field "currency").string?.any (· ≠ currency) then
        some (makeConstraintCheck constraint .payment .failed "currency")
      else if min.any (amount < ·) then
        some (makeConstraintCheck constraint .payment .failed "min")
      else if max.any (· < amount) then
        some (makeConstraintCheck constraint .payment .failed "max")
      else none

/-- The loop over the closed mandates for a list of what is allowed. -/
def evaluateAllowed (constraint : JsonRecord) (closedPaymentMandates : List JsonRecord)
    (target : String) (fields : List String) : Ap2MandateConstraintCheck :=
  (closedPaymentMandates.findSome? fun mandate =>
    match anyEntityMatches (constraint.field "allowed") (mandate.field target) fields with
    | none => some (makeConstraintCheck constraint .payment .unresolved "allowed")
    | some false => some (makeConstraintCheck constraint .payment .failed target)
    | some true => none).getD (makeConstraintCheck constraint .payment .passed)

def payeeFields : List String := ["id", "website", "name"]

def paymentInstrumentFields : List String := ["id", "type", "description"]

def pispFields : List String := ["domain_name", "brand_name", "legal_name"]

def evaluateReference (constraint : JsonRecord) (checkoutPaymentBindingOk : Option Bool)
    (openCheckoutMandateDigests : List String) : Ap2MandateConstraintCheck :=
  match constraint.field "conditional_transaction_id" with
  | .string referencedCheckoutDigest =>
      if openCheckoutMandateDigests.isEmpty then
        makeConstraintCheck constraint .payment .unresolved "open_checkout_digest"
      else if referencedCheckoutDigest ∉ openCheckoutMandateDigests then
        makeConstraintCheck constraint .payment .failed "open_checkout_digest"
      else
        match checkoutPaymentBindingOk with
        | some false => makeConstraintCheck constraint .payment .failed "checkout_payment_binding"
        | none => makeConstraintCheck constraint .payment .unresolved "checkout_payment_binding"
        | some true => makeConstraintCheck constraint .payment .passed
  | _ => makeConstraintCheck constraint .payment .unresolved "conditional_transaction_id"

/-- A closed mandate without a text for its date is executed now. -/
def executionDate (immediateExecutionDate : String) (mandate : JsonRecord) : String :=
  (mandate.field "execution_date").string?.getD immediateExecutionDate

def evaluateExecutionDate (platform : MandatePlatform) (constraint : JsonRecord)
    (closedPaymentMandates : List JsonRecord) (immediateExecutionDate : String) :
    Ap2MandateConstraintCheck :=
  (closedPaymentMandates.findSome? fun mandate =>
    match compareIsoDate platform (executionDate immediateExecutionDate mandate)
      (constraint.field "not_before") (constraint.field "not_after") with
    | none => some (makeConstraintCheck constraint .payment .unresolved "date")
    | some false => some (makeConstraintCheck constraint .payment .failed "execution_date")
    | some true => none).getD (makeConstraintCheck constraint .payment .passed)

def evaluateAmountRange (constraint : JsonRecord) (closedPaymentMandates : List JsonRecord) :
    Ap2MandateConstraintCheck :=
  match optionalIntegerBound (constraint.field "min"),
    optionalIntegerBound (constraint.field "max") with
  | some min, some max =>
      (closedPaymentMandates.findSome? (amountProblem constraint min max)).getD
        (makeConstraintCheck constraint .payment .passed)
  | _, _ => makeConstraintCheck constraint .payment .unresolved "amount_range"

def evaluatePaymentConstraint (platform : MandatePlatform) (constraint : JsonRecord)
    (closedPaymentMandates : List JsonRecord) (nowSeconds : JsNumber)
    (checkoutPaymentBindingOk : Option Bool) (openCheckoutMandateDigests : List String) :
    Except String Ap2MandateConstraintCheck :=
  let type := constraintType constraint
  if closedPaymentMandates.isEmpty then
    .ok (makeConstraintCheck constraint .payment .unresolved "closed_payment_missing")
  else if type = "payment.amount_range" then
    .ok (evaluateAmountRange constraint closedPaymentMandates)
  else if type = "payment.allowed_payees" then
    .ok (evaluateAllowed constraint closedPaymentMandates "payee" payeeFields)
  else if type = "payment.allowed_payment_instruments" then
    .ok (evaluateAllowed constraint closedPaymentMandates "payment_instrument"
      paymentInstrumentFields)
  else if type = "payment.allowed_pisps" then
    .ok (evaluateAllowed constraint closedPaymentMandates "pisp" pispFields)
  else if type = "payment.reference" then
    .ok (evaluateReference constraint checkoutPaymentBindingOk openCheckoutMandateDigests)
  else if type = "payment.execution_date" then do
    let immediateExecutionDate ← platform.isoDate nowSeconds
    .ok (evaluateExecutionDate platform constraint closedPaymentMandates immediateExecutionDate)
  else .ok (makeConstraintCheck constraint .payment .unsupported)

/-- The merchant of the checkout, or else the first payee. -/
def checkoutMerchant (checkoutPayload : Option JsonRecord)
    (closedPaymentMandates : List JsonRecord) : JsValue :=
  (checkoutPayload.elim .undefined (·.field "merchant")).orElse
    ((closedPaymentMandates.find? fun mandate => mandate.field "payee" ≠ .undefined).elim
      .undefined (·.field "payee"))

def evaluateMerchants (constraint : JsonRecord) (merchant : JsValue) :
    Ap2MandateConstraintCheck :=
  match anyEntityMatches (constraint.field "allowed") merchant payeeFields with
  | none => makeConstraintCheck constraint .checkout .unresolved "merchant"
  | some false => makeConstraintCheck constraint .checkout .failed "merchant"
  | some true => makeConstraintCheck constraint .checkout .passed

def evaluateLineItems (constraint : JsonRecord) (checkoutPayload : Option JsonRecord) :
    Ap2MandateConstraintCheck :=
  match checkoutPayload with
  | none => makeConstraintCheck constraint .checkout .unresolved "checkout_payload_missing"
  | some checkoutPayload =>
      match checkoutLineItemQuantities checkoutPayload, (constraint.field "items").array? with
      | some checkoutQuantities, some items =>
          match items.mapM lineItemRequirement with
          | .error reason => makeConstraintCheck constraint .checkout .unresolved reason
          | .ok requirements =>
              if maxLineItemFlow requirements checkoutQuantities ≠
                some (requiredQuantity requirements : ℤ) ∨
                  requiredQuantity requirements ≠ checkoutQuantity checkoutQuantities then
                makeConstraintCheck constraint .checkout .failed "line_items"
              else makeConstraintCheck constraint .checkout .passed
      | _, _ => makeConstraintCheck constraint .checkout .unresolved "line_items"

def evaluateCheckoutConstraint (constraint : JsonRecord) (checkoutPayload : Option JsonRecord)
    (closedPaymentMandates : List JsonRecord) : Ap2MandateConstraintCheck :=
  let type := constraintType constraint
  if type = "checkout.allowed_merchants" then
    evaluateMerchants constraint (checkoutMerchant checkoutPayload closedPaymentMandates)
  else if type = "checkout.line_items" then evaluateLineItems constraint checkoutPayload
  else makeConstraintCheck constraint .checkout .unsupported

def summarizeConstraintChecks (checks : List Ap2MandateConstraintCheck) :
    Ap2ConstraintEvaluationStatus :=
  if checks.isEmpty then .notApplicable
  else if checks.any (·.status = .failed) then .failed
  else if checks.any fun check => check.status = .unresolved ∨ check.status = .unsupported then
    .unresolved
  else .passed

/-- `(mandates ?? []).filter(isRecord).map(resolve).filter(isRecord)` -/
def resolveMandates (platform : MandatePlatform) (disclosures : InsertionMap String JsValue)
    (mandates : List JsValue) : Except String (List JsonRecord) := do
  let resolved ← (mandates.filter fun mandate => (recordOf mandate).isSome).mapM
    (resolveDisclosureRefs disclosures platform.frames)
  .ok (resolved.filterMap recordOf)

/-- `isRecord(resolved) ? resolved : constraint` -/
def resolveConstraint (platform : MandatePlatform) (disclosures : InsertionMap String JsValue)
    (constraint : JsonRecord) : Except String JsonRecord := do
  let resolved ← resolveDisclosureRefs disclosures platform.frames (.object constraint)
  .ok ((recordOf resolved).getD constraint)

def evaluateAp2ViConstraints (platform : MandatePlatform) (input : Ap2MandateConstraintInput)
    (disclosures : InsertionMap String JsValue) :
    Except String Ap2MandateConstraintEvaluation := do
  let resolve := resolveMandates platform disclosures
  let openCheckoutMandates ← resolve input.openCheckoutMandates
  let closedCheckoutMandates ← resolve input.closedCheckoutMandates
  let openPaymentMandates ← resolve input.openPaymentMandates
  let closedPaymentMandates ← resolve input.closedPaymentMandates
  let resolvedCheckoutPayload ←
    resolveDisclosureRefs disclosures platform.frames input.checkoutPayload
  let checkoutPayload :=
    resolveCheckoutPayload platform resolvedCheckoutPayload closedCheckoutMandates
  let nowSeconds := input.nowSeconds.getD platform.nowSeconds
  let checkoutChecks ← (openCheckoutMandates.flatMap getConstraintObjects).mapM fun constraint => do
    let resolved ← resolveConstraint platform disclosures constraint
    .ok (evaluateCheckoutConstraint resolved checkoutPayload closedPaymentMandates)
  let paymentChecks ← (openPaymentMandates.flatMap getConstraintObjects).mapM fun constraint => do
    let resolved ← resolveConstraint platform disclosures constraint
    evaluatePaymentConstraint platform resolved closedPaymentMandates nowSeconds
      input.checkoutPaymentBindingOk input.openCheckoutMandateDigests
  let checks := checkoutChecks ++ paymentChecks
  .ok ⟨summarizeConstraintChecks checks, checks⟩

end Atrib.Verify
