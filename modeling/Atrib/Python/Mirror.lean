import Atrib.Lib.JsValue
import Atrib.Mcp.Hash

/-!
# The mirror of the Python client

`parse_mirror_line` and `read_mirror` of `python/src/atrib/mirror.py`. A line is an
envelope around a record, or a record; what is neither is skipped. `json.loads` is
a parameter. A `ValueError` that it raises is caught, and nothing else is. It makes
an exact integer of a number that is written without a fraction and an exponent, and
a double of any other.
-/

namespace Atrib.Lib

inductive PyValue where
  | none
  | bool (b : Bool)
  | int (n : ℤ)
  | float (x : JsNumber)
  | str (text : String)
  | list (items : List PyValue)
  | dict (members : List (String × PyValue))

namespace PyValue

/-- `members.get(key)`, `None` where there is no such key. -/
def get (members : List (String × PyValue)) (key : String) : PyValue :=
  (members.lookup key).getD .none

/-- `key in members` -/
def has (members : List (String × PyValue)) (key : String) : Bool := (members.lookup key).isSome

/-- `value == text` -/
def isText (value : PyValue) (text : String) : Bool :=
  match value with
  | .str found => found = text
  | _ => false

/-- The number of what is an instance of `int`, as `True` and `False` are. -/
def int? : PyValue → Option ℤ
  | .int n => some n
  | .bool b => some (if b then 1 else 0)
  | _ => Option.none

def dict? : PyValue → Option (List (String × PyValue))
  | .dict members => some members
  | _ => Option.none

end PyValue

end Atrib.Lib

namespace Atrib.Python

open Lib (PyValue)

/-- `json.loads`: a value, none where it raises a `ValueError`, or what else it raises. -/
abbrev JsonLoads := String → Except String (Option PyValue)

def EVENT_TYPE_TRANSACTION_URI : String := "https://atrib.dev/v1/types/transaction"

def requiredFields : List String :=
  ["spec_version", "creator_key", "chain_root", "event_type", "context_id", "timestamp"]

structure MirrorLine where
  record : List (String × PyValue)
  sidecar : Option (List (String × PyValue))
  proof : Option (List (String × PyValue))
  writtenAt : Option ℤ

def hasRequiredFields (candidate : List (String × PyValue)) : Bool :=
  requiredFields.all (PyValue.has candidate) &&
    (PyValue.has candidate "signature" ||
      ((PyValue.get candidate "event_type").isText EVENT_TYPE_TRANSACTION_URI &&
        PyValue.has candidate "signers"))

/-- The line of a value that was read. -/
def mirrorLineOf (parsed : PyValue) : Option MirrorLine := do
  let parsed ← parsed.dict?
  match (PyValue.get parsed "record").dict?.filter (hasRequiredFields ·) with
  | some inner =>
      return {
        record := inner
        sidecar := (PyValue.get parsed "_local").dict?
        proof := (PyValue.get parsed "proof").dict?
        writtenAt := (PyValue.get parsed "written_at").int? }
  | none => if hasRequiredFields parsed then return ⟨parsed, none, none, none⟩ else none

section

variable (loads : JsonLoads)

def parseMirrorLine (line : String) : Except String (Option MirrorLine) :=
  return (← loads line).bind mirrorLineOf

/-- `str.isspace` of one character -/
def isPySpace (c : Char) : Bool :=
  [0x20, 0x85, 0xa0, 0x1680, 0x2028, 0x2029, 0x202f, 0x205f, 0x3000].contains c.toNat ||
    (0x09 ≤ c.toNat && c.toNat ≤ 0x0d) || (0x1c ≤ c.toNat && c.toNat ≤ 0x1f) ||
    (0x2000 ≤ c.toNat && c.toNat ≤ 0x200a)

/-- The lines of a file that are text, and not blank. -/
def textLines (data : Bytes) : List String :=
  ((data.splitOn 10).filterMap fun rawBytes => String.fromUTF8? ⟨rawBytes.toArray⟩).filter
    fun raw => !raw.toList.all isPySpace

/-- `read_mirror`, of the bytes of the file, none where it cannot be read. -/
def readMirror (file : Option Bytes) : Except String (List MirrorLine) :=
  match file with
  | none => .ok []
  | some data => do
      let parsed ← (textLines data).mapM (parseMirrorLine loads)
      return parsed.reduceOption

end

end Atrib.Python
