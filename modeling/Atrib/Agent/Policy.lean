import Atrib.Lib.InsertionMap
import Atrib.Lib.JsArithmetic

/-!
# Negotiating a session's policies

`packages/agent/src/policy.ts`: at the start of a session the policies of the
merchant and of the creators are fetched, and their constraints are settled by
rules. A policy is any JSON; only what `fetchPolicy` looks at has been checked.
A server with a policy was reached under its URL, so no key of the floors is
`__proto__` or an array index. The clock, the abort timer and the record that
`buildSessionPolicyRecord` hashes are left out.
-/

namespace Atrib.Agent

open Lib (InsertionMap JsNumber JsValue NumberText)

/-- How the language writes and reads numbers. -/
structure PolicyText extends NumberText where
  /-- `x.toFixed(4)` -/
  toFixed4 : JsNumber → String

def POLICY_PATH : String := "/.well-known/atrib-policy.json"

inductive CreatorPolicyStatus where
  | compatible
  | floorScaled
  | conflictDefaulted
  | notFound
deriving DecidableEq

structure CreatorPolicyEntry where
  server_url : String
  policy_url : String
  status : CreatorPolicyStatus
  policy : Option JsValue
deriving DecidableEq

variable (text : PolicyText)

/-! ## Fetching -/

/-- `typeof val === 'number' && val < 0` -/
def isNegative : JsValue → Bool
  | .number x => x.lt (.finite 0)
  | _ => false

/-- The checks of Rule 6 on a document that was read. -/
def acceptedPolicy (doc : JsValue) : Except String (Option JsValue) := do
  let constraints ← doc.get "constraints"
  if constraints.truthy then
    let minimum_share := constraints.member "minimum_share"
    let maximum_share := constraints.member "maximum_share"
    if minimum_share ≠ .undefined ∧ maximum_share ≠ .undefined then
      if ← maximum_share.lessThan text.toNumberText minimum_share then return none
    if constraints.ownValues.any isNegative then return none
  return some doc

/-- The response is none where the URL is not one of the web, the request fails
or the body is not JSON. -/
def fetchPolicy (response : Option JsValue) : Option JsValue :=
  response.bind fun doc => (acceptedPolicy text doc).toOption.join

/-- A document that counts as false is no policy. -/
def fetchedPolicy (response : Option JsValue) : Option JsValue :=
  (fetchPolicy text response).filter JsValue.truthy

def creatorEntry (fetched : String × Option JsValue) : CreatorPolicyEntry where
  server_url := fetched.1
  policy_url := fetched.1 ++ POLICY_PATH
  status := if (fetchedPolicy text fetched.2).isSome then .compatible else .notFound
  policy := fetchedPolicy text fetched.2

/-! ## The rules -/

structure Negotiation where
  agreedPolicy : String
  minimumFloors : InsertionMap String JsValue
  negotiationWarnings : List String

/-- `policy?.constraints?.[key]` -/
def constraintOf (policy : Option JsValue) (key : String) : JsValue :=
  match policy with
  | none => .undefined
  | some doc => (doc.member "constraints").member key

def CreatorPolicyEntry.floor (entry : CreatorPolicyEntry) : JsValue :=
  constraintOf entry.policy "minimum_own_share"

/-- The floors by server, and the sum over the entries. -/
def collectFloors : List CreatorPolicyEntry → InsertionMap String JsValue → JsValue →
    Except String (InsertionMap String JsValue × JsValue)
  | [], minimumFloors, floorSum => .ok (minimumFloors, floorSum)
  | entry :: entries, minimumFloors, floorSum =>
      if entry.floor = .undefined then collectFloors entries minimumFloors floorSum
      else do
        let floorSum ← floorSum.add text.toNumberText entry.floor
        collectFloors entries (minimumFloors.set entry.server_url entry.floor) floorSum

/-- `floor !== undefined && floor > merchantCap` -/
def exceedsCap (merchantCap : JsValue) (entry : CreatorPolicyEntry) : Except String Bool :=
  if entry.floor = .undefined then .ok false
  else merchantCap.lessThan text.toNumberText entry.floor

/-- The first entry whose floor alone is above the cap. -/
def firstOverCap (merchantCap : JsValue) :
    List CreatorPolicyEntry → Except String (Option CreatorPolicyEntry)
  | [] => .ok none
  | entry :: entries => do
      if ← exceedsCap text merchantCap entry then return some entry
      firstOverCap merchantCap entries

/-- Only the creators whose floor is above the cap are at fault. -/
def markOverCap (merchantCap : JsValue) (entry : CreatorPolicyEntry) :
    Except String CreatorPolicyEntry := do
  if entry.status = .notFound then return entry
  if ← exceedsCap text merchantCap entry then
    return { entry with status := .conflictDefaulted }
  return entry

def scaleFloor (scaleFactor : JsNumber) (floor : String × JsValue) :
    Except String (String × JsValue) := do
  return (floor.1, .number ((← floor.2.toNumber text.toNumberText).mul scaleFactor))

/-- Rules 1 and 2: floors that fit one by one are scaled to fit together. -/
def scaleFloors (agreedPolicy : String) (merchantCap : JsValue)
    (creatorEntries : List CreatorPolicyEntry) (minimumFloors : InsertionMap String JsValue)
    (floorSum : JsValue) : Except String (Negotiation × List CreatorPolicyEntry) := do
  let scaleFactor :=
    (← merchantCap.toNumber text.toNumberText).div (← floorSum.toNumber text.toNumberText)
  let scaled ← minimumFloors.entries.mapM (scaleFloor text scaleFactor)
  let minimumFloors := minimumFloors.setAll scaled
  let warning := "creator minimum floors scaled by " ++ text.toFixed4 scaleFactor ++
    " to fit merchant cap of " ++ (← merchantCap.toText text.toNumberText)
  let creatorEntries := creatorEntries.map fun entry =>
    if entry.status = .compatible ∧ minimumFloors.has entry.server_url then
      { entry with status := .floorScaled }
    else entry
  return (⟨agreedPolicy, minimumFloors, [warning]⟩, creatorEntries)

/-- The negotiated constraints, and the entries with the status they got. -/
def negotiatePolicies (merchantPolicy : Option JsValue) (merchantPolicyUrl : String)
    (creatorEntries : List CreatorPolicyEntry) :
    Except String (Negotiation × List CreatorPolicyEntry) := do
  let merchantCap := constraintOf merchantPolicy "maximum_total_share"
  let (minimumFloors, floorSum) ← collectFloors text creatorEntries ∅ (.number (.finite 0))
  -- Rule 5: creator floors summing to more than 1 are irreconcilable
  if ← (JsValue.number (.finite 1)).lessThan text.toNumberText floorSum then
    let warning := "creator minimum floors sum to " ++ (← floorSum.toText text.toNumberText) ++
      " (>1.0), falling back to default policy. Contributors: " ++
      ", ".intercalate minimumFloors.keys
    let creatorEntries := creatorEntries.map fun entry =>
      if entry.status = .compatible ∧ entry.policy.isSome then
        { entry with status := .conflictDefaulted }
      else entry
    return (⟨"default", ∅, [warning]⟩, creatorEntries)
  if merchantCap = .undefined then
    return (⟨merchantPolicyUrl, minimumFloors, []⟩, creatorEntries)
  -- Rule 3: one floor above the cap is irreconcilable
  match ← firstOverCap text merchantCap creatorEntries with
  | some entry =>
      let warning := "creator " ++ entry.server_url ++ " minimum floor " ++
        (← entry.floor.toText text.toNumberText) ++ " exceeds merchant cap " ++
        (← merchantCap.toText text.toNumberText) ++ ", falling back to default"
      return (⟨"default", ∅, [warning]⟩, ← creatorEntries.mapM (markOverCap text merchantCap))
  | none =>
      if ← merchantCap.lessThan text.toNumberText floorSum then
        scaleFloors text merchantPolicyUrl merchantCap creatorEntries minimumFloors floorSum
      else return (⟨merchantPolicyUrl, minimumFloors, []⟩, creatorEntries)

end Atrib.Agent
