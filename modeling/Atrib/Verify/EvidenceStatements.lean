import Atrib.Lib.Effect
import Atrib.Lib.InsertionMap
import Atrib.Lib.JsValue
import Atrib.Lib.Sorting
import Atrib.Mcp.Refs

/-!
# What a statement rests on

The walk over the references of an evidence statement, `dependencies` of
`packages/verify/src/evidence-statements.ts`: from the body of a statement to
the artifacts and records it names, and from such a record on.

The bodies are as they come, of any shape. `String(ref.relation)` of a value
that cannot be converted throws.
-/

namespace Atrib.Verify.EvidenceStatements

open Lib (Effect InsertionMap InsertionSet.ofList JsValue NumberText sortBy)

inductive EvidenceState
  | supported
  | rejected
  | unresolved
  | conflict
  | not_applicable
deriving DecidableEq

structure EvidenceDimension where
  state : EvidenceState
  basis : List String
  reasons : List String
deriving DecidableEq

/-- `[...new Set(texts)].sort()` -/
def sortedSet (texts : List String) : List String :=
  sortBy (fun a b => compare (JsValue.codeUnits a) (JsValue.codeUnits b)) (InsertionSet.ofList texts)

def dim (state : EvidenceState) (reason : Option String := none) (hashes : List String := []) :
    EvidenceDimension := ⟨state, sortedSet hashes, reason.toList⟩

/-- What the walk reads of a statement. `body` is the opening of its hash. -/
structure Info where
  hash : String
  body : JsValue
  /-- `dimensions.integrity.state` -/
  integrity : EvidenceState
  /-- `!recordOk || bodyResult.state === 'rejected' ? 'rejected' : bodyResult.state` -/
  integrity_mem : integrity = .supported ∨ integrity = .rejected ∨ integrity = .unresolved
deriving DecidableEq

/-- The libraries, and what the language does with texts. -/
structure Platform where
  hash : Hash
  text : NumberText
  /-- `canonicalize(value) ?? 'null'` -/
  jcs : JsValue → String
  localeCompare : String → String → Ordering

structure EvidenceSet extends Platform where
  infos : List Info
  artifacts : InsertionMap String Bytes

/-- `new Map(infos.map((info) => [info.hash, info]))` -/
def EvidenceSet.byHash (E : EvidenceSet) : InsertionMap String Info :=
  (∅ : InsertionMap String Info).setAll (E.infos.map fun info => (info.hash, info))

/-! ## Artifacts -/

def artifactBytes (bytes : Bytes) : Except String Bytes :=
  if 1048576 < bytes.length then .error "resource_limit" else .ok bytes

def artifactFailure (error : String) : EvidenceDimension :=
  if error = "resource_limit" then dim .unresolved (some "resource_limit")
  else dim .rejected (some "dependency_invalid")

def Platform.bytesHash (P : Platform) (bytes : Bytes) : String := sha256Ref (P.hash.sha256 bytes)

/-! ## References -/

/-- An object as it is, and `{}` for anything else. -/
def object (value : JsValue) : JsValue :=
  match value with
  | .object members => .object members
  | _ => .object []

def refs (info : Info) : List JsValue :=
  match info.body.member "basis" with
  | .array items => items.map object
  | _ => []

def isArtifact (ref : JsValue) : Bool := (ref.member "kind").strictEq (.string "artifact")

variable (E : EvidenceSet)

/-- `String(ref.relation)` -/
def relationText (ref : JsValue) : Except String String := (ref.member "relation").toText E.text

/-- `String(ref.hash)` -/
def hashText (ref : JsValue) : Except String String := (ref.member "hash").toText E.text

/-- The references with one of the relations, sorted. -/
def entries (node : Info) (selectedRelations : List String) : Except String (List JsValue) := do
  let kept ← (refs node).filterM fun ref => return selectedRelations.contains (← relationText E ref)
  return sortBy (fun a b => E.localeCompare (E.jcs a) (E.jcs b)) kept

/-! ## The walk -/

structure Walk where
  count : ℕ := 0
  bytesSeen : ℕ := 0
  failures : List EvidenceDimension := []

def Walk.fail (s : Walk) (failure : EvidenceDimension) : Walk :=
  { s with failures := s.failures ++ [failure] }

/-- The body of the loop over the references; false where it breaks off. -/
def visit (next : Info → Effect Walk Unit) (ref : JsValue) : Effect Walk Bool := fun s =>
  let s := { s with count := s.count + 1 }
  if 256 < s.count then (.ok false, s.fail (dim .unresolved (some "resource_limit")))
  else
    match hashText E ref with
    | .error error => (.error error, s)
    | .ok hash =>
        if isArtifact ref then
          match E.artifacts.get? hash with
          | none => (.ok true, s.fail (dim .unresolved (some "dependency_missing")))
          | some bytes =>
              let s := { s with bytesSeen := s.bytesSeen + bytes.length }
              if 16777216 < s.bytesSeen then
                (.ok false, s.fail (dim .unresolved (some "resource_limit")))
              else
                match artifactBytes bytes with
                | .error error => (.ok true, s.fail (artifactFailure error))
                | .ok bytes =>
                    if (JsValue.string (E.bytesHash bytes)).strictEq (ref.member "hash") then
                      (.ok true, s)
                    else (.ok true, s.fail (dim .rejected (some "dependency_invalid")))
        else
          match E.byHash.get? hash with
          | none => (.ok true, s.fail (dim .unresolved (some "dependency_missing")))
          | some linked =>
              if linked.integrity = .unresolved then
                (.ok true, s.fail (dim .unresolved (some "dependency_missing")))
              else if linked.integrity = .rejected then
                (.ok true, s.fail (dim .rejected (some "dependency_invalid")))
              else (next linked >>= fun _ => pure true) s

def walkRefs (next : Info → Effect Walk Unit) : List JsValue → Effect Walk Unit
  | [] => pure ()
  | ref :: refs => do
      if ← visit E next ref then walkRefs next refs

/-- The relations that are followed below the first level. -/
def followed : List String := ["source", "authority", "expected", "captured", "binding"]

/-- `room` is `33 - path.length`: there is none left where `path.length > 32`. -/
def walk : ℕ → Info → List String → List String → Effect Walk Unit
  | room, node, path, selectedRelations => fun s =>
      if path.contains node.hash then
        (.ok (), s.fail (dim .unresolved (some "dependency_cycle")))
      else
        match room with
        | 0 => (.ok (), s.fail (dim .unresolved (some "resource_limit")))
        | room + 1 =>
            match entries E node selectedRelations with
            | .error error => (.error error, s)
            | .ok found =>
                walkRefs E (fun linked => walk room linked (path ++ [node.hash]) followed) found s

def dependencyWalk (info : Info) (relations : List String) : Except String Unit × Walk :=
  walk E 33 info [] relations {}

def dependencies (info : Info) (relations : List String := ["source"]) :
    Except String EvidenceDimension :=
  match dependencyWalk E info relations with
  | (.error error, _) => .error error
  | (.ok (), s) =>
      if s.failures = [] then .ok (dim .supported)
      else
        .ok {
          state := if s.failures.any (·.state = .rejected) then .rejected else .unresolved
          basis := []
          reasons := sortedSet (s.failures.flatMap (·.reasons)) }

end Atrib.Verify.EvidenceStatements
