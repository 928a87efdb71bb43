import Atrib.LogNode.Tree

/-!
# Log entries

`packages/mcp/src/entry.ts`. The 90 bytes of an entry are a version, four
fields of fixed width and an event type. Hex and base64url texts stand here
for the bytes they encode, so an `EntryInput` is one `serializeEntry` accepts.
-/

namespace Atrib

def ENTRY_VERSION : UInt8 := 0x01

/-- Map an event type URI to its byte; a URI that is not one of atrib's own is
an extension. -/
def eventTypeUriToByte (uri : String) : UInt8 :=
  match uri with
  | "https://atrib.dev/v1/types/tool_call" => 0x01
  | "https://atrib.dev/v1/types/transaction" => 0x02
  | "https://atrib.dev/v1/types/observation" => 0x03
  | "https://atrib.dev/v1/types/directory_anchor" => 0x04
  | "https://atrib.dev/v1/types/annotation" => 0x05
  | "https://atrib.dev/v1/types/revision" => 0x06
  | _ => 0xff

structure EntryInput where
  recordHash : Bytes
  creatorKey : Bytes
  contextId : Bytes
  timestamp : ℕ
  eventType : String
  length_recordHash : recordHash.length = 32
  length_creatorKey : creatorKey.length = 32
  length_contextId : contextId.length = 16

/-- `setBigUint64(.., false)` -/
def bigUint64 (n : ℕ) : Bytes := (List.range 8).map fun i => UInt8.ofNat (n / 256 ^ (7 - i))

/-- `getBigUint64(.., false)` -/
def getBigUint64 (bytes : Bytes) : ℕ := bytes.foldl (fun n b => 256 * n + b.toNat) 0

def serializeEntry (input : EntryInput) : Bytes :=
  ENTRY_VERSION :: (input.recordHash ++ (input.creatorKey ++ (input.contextId ++
    (bigUint64 input.timestamp ++ [eventTypeUriToByte input.eventType]))))

theorem length_serializeEntry (input : EntryInput) :
    (serializeEntry input).length = ENTRY_SIZE := by
  simp [serializeEntry, bigUint64, input.length_recordHash, input.length_creatorKey,
    input.length_contextId, ENTRY_SIZE]

/-- `entry.subarray(1, 33)` -/
def recordHashOf (entry : Bytes) : Bytes := (entry.drop 1).take 32

theorem recordHashOf_serializeEntry (input : EntryInput) :
    recordHashOf (serializeEntry input) = input.recordHash := by
  rw [recordHashOf, serializeEntry, List.drop_one, List.tail_cons,
    List.take_left' input.length_recordHash]

end Atrib
