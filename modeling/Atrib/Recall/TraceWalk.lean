import Atrib.Lib.Grouping
import Atrib.Lib.JsValue
import Mathlib.Data.Rat.Defs

/-!
# Traces through `informed_by`

`services/atrib-recall/src/trace-walk.ts`, over the index that
`trace-storage.ts` makes of the mirrors. The two directions are one walk that
differs in the edges out of a record: what it names in `informed_by`, or the
records that name it. A hash is marked when it comes off the queue, so it may
have been put there several times before.

Each round of the loop takes one entry off the queue, and a record puts its
edges there once; as many rounds as there are edges, and one more, are enough.
-/

namespace Atrib.Recall.Trace

open Lib (InsertionMap InsertionSet.add JsValue groupStep)

structure IndexedRecord where
  contextId : String
  record : JsValue
  recordHash : String
  source : String
deriving DecidableEq

def IndexedRecord.informedBy (indexed : IndexedRecord) : List JsValue :=
  (indexed.record.member "informed_by").array?.getD []

/-- `loadAllRecords(…).byHash`: each record under its own hash. -/
structure RecordIndex where
  byHash : InsertionMap String IndexedRecord
  keyed : ∀ e ∈ byHash.entries, e.2.recordHash = e.1

/-- The records of the mirrors, in the order they are read. -/
def RecordIndex.ofRecords (records : List IndexedRecord) : RecordIndex where
  byHash := (∅ : InsertionMap String IndexedRecord).setAll (records.map fun r => (r.recordHash, r))
  keyed := by
    intro e he
    rcases InsertionMap.mem_entries_setAll he with h | h
    · obtain ⟨r, -, rfl⟩ := List.mem_map.1 h
      rfl
    · cases h

inductive TraceDirection
  | backward
  | forward
deriving DecidableEq

structure TraceVisited where
  depth : ℕ
  recordHash : String
  parentHashes : List String
  record : JsValue
  source : String
  nextInformedBy : List JsValue
deriving DecidableEq

structure TraceResult where
  startHash : String
  direction : TraceDirection
  depthRequested : ℚ
  depthReached : ℕ
  visited : List TraceVisited
  dangling : List JsValue
  truncatedByDepth : Bool
  truncatedByCap : Bool
  warnings : List String
deriving DecidableEq

structure TraceOptions where
  maxNodes : Option ℚ := none
  contextId : Option String := none

/-- An empty text is no scope. -/
def TraceOptions.scope (options : TraceOptions) : Option String :=
  options.contextId.filter (· ≠ "")

/-- The record lies in the scope of a walk, if it has one. -/
def IndexedRecord.inScope (scope : Option String) (indexed : IndexedRecord) : Bool :=
  scope.all (indexed.contextId = ·)

structure Frontier where
  hash : JsValue
  depth : ℕ
  parent : Option String

structure TraceState where
  visited : InsertionMap String TraceVisited := ∅
  dangling : List JsValue := []
  frontier : List Frontier
  truncatedByCap : Bool := false
  truncatedByDepth : Bool := false
  depthReached : ℕ := 0

def TraceVisited.addParent (v : TraceVisited) (parent : Option String) : TraceVisited :=
  match parent.filter (· ≠ "") with
  | some parent =>
      if parent ∈ v.parentHashes then v else { v with parentHashes := v.parentHashes ++ [parent] }
  | none => v

section

variable (index : RecordIndex) (edges : String → IndexedRecord → List JsValue)
  (scope : Option String) (depth : ℚ)

/-- `index.get`, which finds nothing under what is no text. -/
def RecordIndex.lookup : JsValue → Option IndexedRecord
  | .string hash => index.byHash.get? hash
  | _ => none

/-- A record that has not been visited before. -/
def visitRecord (s : TraceState) (hash : String) (indexed : IndexedRecord) (current : Frontier) :
    TraceState :=
  let next := edges hash indexed
  let v : TraceVisited := ⟨current.depth, hash, [], indexed.record, indexed.source, next⟩
  let s := { s with visited := s.visited.set hash (v.addParent current.parent) }
  if (current.depth : ℚ) < depth then
    { s with frontier := s.frontier ++ next.map fun ref => ⟨ref, current.depth + 1, some hash⟩ }
  else { s with truncatedByDepth := s.truncatedByDepth || next ≠ [] }

/-- A round with `current` off the queue. -/
def visitEntry (s : TraceState) (current : Frontier) : TraceState :=
  if (current.depth : ℚ) > depth then { s with truncatedByDepth := true }
  else
    let s := { s with depthReached := max s.depthReached current.depth }
    match current.hash, index.lookup current.hash with
    | .string hash, some indexed =>
        if !indexed.inScope scope then
          { s with dangling := InsertionSet.add s.dangling current.hash }
        else
          match s.visited.get? hash with
          | some v => { s with visited := s.visited.set hash (v.addParent current.parent) }
          | none => visitRecord edges depth s hash indexed current
    | _, _ => { s with dangling := InsertionSet.add s.dangling current.hash }

/-- `while (frontier.length > 0)` -/
def walkLoop (maxNodes : ℚ) : ℕ → TraceState → TraceState
  | 0, s => s
  | rounds + 1, s =>
      match s.frontier with
      | [] => s
      | current :: frontier =>
          if maxNodes ≤ (s.visited.size : ℚ) then { s with truncatedByCap := true }
          else
            walkLoop maxNodes rounds
              (visitEntry index edges scope depth { s with frontier := frontier } current)

/-- All edges, and the start. -/
def walkRounds : ℕ :=
  (index.byHash.entries.map fun e => (edges e.1 e.2).length).sum + 1

/-- The walk that the two directions share. -/
def traceWalk (direction : TraceDirection) (startHash : String) (options : TraceOptions) :
    TraceResult :=
  match index.byHash.get? startHash with
  | none =>
      ⟨startHash, direction, depth, 0, [], [.string startHash], false, false,
        ["start_hash " ++ startHash ++ " not in local mirror"]⟩
  | some start =>
      if !start.inScope options.scope then
        ⟨startHash, direction, depth, 0, [], [], false, false,
          ["start_hash " ++ startHash ++ " lives in context_id " ++ start.contextId ++
            " but trace was scoped to " ++ options.scope.getD "" ++
            " (set ATRIB_CONTEXT_ID to override or omit context_id to walk cross-context)"]⟩
      else
        let s := walkLoop index edges options.scope depth (options.maxNodes.getD 200)
          (walkRounds index edges) { frontier := [⟨.string startHash, 0, none⟩] }
        ⟨startHash, direction, depth, s.depthReached, s.visited.values, s.dangling,
          s.truncatedByDepth, s.truncatedByCap, []⟩

end

def traceBackward (startHash : String) (depth : ℚ) (index : RecordIndex)
    (options : TraceOptions) : TraceResult :=
  traceWalk index (fun _ indexed => indexed.informedBy) depth .backward startHash options

/-- The references, each with the hash of the record that has it. -/
def RecordIndex.citations (index : RecordIndex) : List (JsValue × String) :=
  index.byHash.values.flatMap fun r => r.informedBy.map (·, r.recordHash)

def buildReverseInformedByIndex (index : RecordIndex) : InsertionMap String (List String) :=
  index.citations.foldl
    (groupStep (fun citation => citation.1.string?) [] fun hashes citation =>
      hashes ++ [citation.2]) ∅

def traceForward (startHash : String) (depth : ℚ) (index : RecordIndex)
    (options : TraceOptions) : TraceResult :=
  traceWalk index
    (fun hash _ => (((buildReverseInformedByIndex index).get? hash).getD []).map .string) depth
    .forward startHash options

end Atrib.Recall.Trace
