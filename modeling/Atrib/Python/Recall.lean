import Atrib.Mcp.Refs
import Atrib.Python.Mirror

/-!
# Recall in the process of the Python client

`recall` of `python/src/atrib/client.py` where no daemon answers: both mirrors are
read, and from the newest line back those are taken that pass the filters and, if
this is asked for, verify. What verifies a record, and the canonical form of JCS,
are parameters; either may raise.
-/

namespace Atrib.Python.Recall

open Lib (PyValue)

/-- The members of a record. -/
abbrev Record := List (String × PyValue)

structure Platform where
  loads : JsonLoads
  verifyRecord : Record → Except String Bool
  /-- `rfc8785.dumps` -/
  jcs : Record → Except String Bytes
  hash : Hash

structure RecallArgs where
  shape : String
  contextId : Option String
  eventType : Option String
  creatorKey : Option String
  limit : ℤ
  sinceMs : Option ℤ
  untilMs : Option ℤ
  verifySignatures : Bool

/-- What a client has: its mirrors, as they can be read, and its context. -/
structure Client where
  mirrorRead : Option Bytes
  mirrorWrite : Option Bytes
  defaultContextId : Option String

structure RecallEntry where
  recordHash : String
  eventType : PyValue
  contextId : PyValue
  creatorKey : PyValue
  timestamp : PyValue
  signatureVerified : Option Bool
  localContent : Option PyValue

structure RecallData where
  total : ℕ
  returned : ℕ
  records : List RecallEntry

structure RecallOutcome where
  shape : String
  via : String
  data : Option RecallData
  warnings : List String

def eventTypeShortNames : List String :=
  ["tool_call", "transaction", "observation", "directory_anchor", "annotation", "revision"]

def normalizeEventType (value : String) : String :=
  let aliases := eventTypeShortNames.flatMap fun name =>
    (name, "https://atrib.dev/v1/types/" ++ name) ::
      ["/event/", "/events/", "/v1/event/", "/v1/events/"].map fun path =>
        ("https://atrib.dev" ++ path ++ name, "https://atrib.dev/v1/types/" ++ name)
  (aliases.lookup value).getD value

/-- `a or b` -/
def orText (a b : Option String) : Option String := (a.filter (· ≠ "")).or b

section

variable (P : Platform)

def recordHashRef (record : Record) : Except String String :=
  return sha256Ref (P.hash.sha256 (← P.jcs record))

variable (client : Client) (args : RecallArgs)

def effectiveContext : Option String :=
  orText args.contextId (if args.shape = "session_chain" then client.defaultContextId else none)

/-- A bound on the timestamp, which holds of what is no integer. -/
def withinBounds (timestamp : PyValue) : Bool :=
  timestamp.int?.all fun timestamp =>
    args.sinceMs.all (· ≤ timestamp) && args.untilMs.all (timestamp ≤ ·)

/-- The filters of the loop. -/
def passes (record : Record) : Bool :=
  (effectiveContext client args).all (PyValue.isText (PyValue.get record "context_id")) &&
    (args.eventType.map normalizeEventType).all
      (PyValue.isText (PyValue.get record "event_type")) &&
    args.creatorKey.all (PyValue.isText (PyValue.get record "creator_key")) &&
    withinBounds args (PyValue.get record "timestamp")

/-- `verify_record(record) if verify_signatures else None` -/
def signatureVerified (record : Record) : Except String (Option Bool) :=
  if args.verifySignatures then some <$> P.verifyRecord record else return none

def entryOf (line : MirrorLine) (recordHash : String) (verified : Option Bool) : RecallEntry where
  recordHash := recordHash
  eventType := PyValue.get line.record "event_type"
  contextId := PyValue.get line.record "context_id"
  creatorKey := PyValue.get line.record "creator_key"
  timestamp := PyValue.get line.record "timestamp"
  signatureVerified := verified
  localContent := line.sidecar.bind (·.lookup "content")

/-- The loop, with the entries taken so far. -/
def recallLoop : List MirrorLine → List RecallEntry → Except String (List RecallEntry)
  | [], records => return records
  | line :: lines, records => do
      if !passes client args line.record then recallLoop lines records
      else
        let verified ← signatureVerified P args line.record
        if verified = some false then recallLoop lines records
        else
          let records := records ++ [entryOf line (← recordHashRef P line.record) verified]
          if args.limit ≤ records.length then return records
          else recallLoop lines records

def recallRecords : Except String RecallOutcome := do
  if args.shape ∉ ["history", "session_chain"] then
    return ⟨args.shape, "none", none,
      ["atrib: recall shape '" ++ args.shape ++ "' is not available in the Python " ++
        "SDK v0; use the TypeScript SDK or the primitives runtime"]⟩
  let lines := (← readMirror P.loads client.mirrorRead) ++ (← readMirror P.loads client.mirrorWrite)
  let records ← recallLoop P client args lines.reverse []
  return ⟨args.shape, "in-process", some ⟨records.length, records.length, records⟩, []⟩

end

end Atrib.Python.Recall
