import Atrib.Lib.InsertionMap
import Atrib.Lib.JsValue

/-!
# The replay cache of DPoP proofs

`MemoryDpopReplayCache` remembers the key of a proof until it expires. A call
first drops what has expired by the clock, then looks the key up, and stores it
when it is not there. Whatever stands in the cache beyond `maxEntries` is then
deleted from the oldest on, expired or not.
-/

namespace Atrib.Verify

open Atrib.Lib

/-! ## Keys -/

/-- A character in a text that `JSON.stringify` writes. -/
def jsonEscape (c : Char) : List Char :=
  let hexDigit (n : ℕ) : Char := Char.ofNat (if n < 10 then 0x30 + n else 0x57 + n)
  match c.toNat with
  | 0x08 => "\\b".toList
  | 0x09 => "\\t".toList
  | 0x0a => "\\n".toList
  | 0x0c => "\\f".toList
  | 0x0d => "\\r".toList
  | 0x22 => "\\\"".toList
  | 0x5c => "\\\\".toList
  | n => if n < 0x20 then "\\u00".toList ++ [hexDigit (n / 16), hexDigit (n % 16)] else [c]

def jsonQuote (text : String) : List Char :=
  "\"".toList ++ text.toList.flatMap jsonEscape ++ "\"".toList

/-- A field that is missing and one that is `null` are both `none`. -/
structure DpopReplayCacheKey where
  jti : String
  jkt : Option String := none
  htm : Option String := none
  htu : Option String := none
  issuer : Option String := none
  client_id : Option String := none
deriving DecidableEq

def dpopReplayCacheKeyId (key : DpopReplayCacheKey) : String :=
  let nullable (field : Option String) : List Char := (field.map jsonQuote).getD "null".toList
  String.ofList <|
    "\x7b\"issuer\":".toList ++ nullable key.issuer ++
    ",\"client_id\":".toList ++ nullable key.client_id ++
    ",\"jkt\":".toList ++ nullable key.jkt ++
    ",\"htm\":".toList ++ nullable key.htm ++
    ",\"htu\":".toList ++ nullable key.htu ++
    ",\"jti\":".toList ++ jsonQuote key.jti ++ "\x7d".toList

/-! ## The cache -/

/-- The expiry of each key, in the order in which the keys came. -/
structure MemoryDpopReplayCache where
  entries : InsertionMap String JsNumber
  maxEntries : JsNumber

namespace MemoryDpopReplayCache

/-- `new MemoryDpopReplayCache({ maxEntries })` -/
def new (maxEntries : Option JsNumber) : MemoryDpopReplayCache :=
  ⟨∅, maxEntries.getD (.finite 10000)⟩

def prune (cache : MemoryDpopReplayCache) (now : ℚ) : MemoryDpopReplayCache :=
  { cache with entries := cache.entries.filter fun _ expiresAt => !expiresAt.le (.finite now) }

def pruneToMax (cache : MemoryDpopReplayCache) : MemoryDpopReplayCache :=
  { cache with
    entries := cache.entries.shrink fun size => cache.maxEntries.lt (.finite size) }

/-- The expiry recorded with a key that is stored. -/
def recordedExpiry (expiresAtSeconds : JsNumber) (now : ℚ) : JsNumber :=
  expiresAtSeconds.max (.finite (now + 1))

/-- The clock is read once in a call, and shows `now`. -/
def checkAndRemember (cache : MemoryDpopReplayCache) (now : ℚ) (key : DpopReplayCacheKey)
    (expiresAtSeconds : JsNumber) : Bool × MemoryDpopReplayCache :=
  let cache := cache.prune now
  let id := dpopReplayCacheKeyId key
  if (cache.entries.get? id).any fun existingExpiry => (JsNumber.finite now).lt existingExpiry then
    (false, cache)
  else
    (true, { cache with
      entries := cache.entries.set id (recordedExpiry expiresAtSeconds now) }.pruneToMax)

def size (cache : MemoryDpopReplayCache) (now : ℚ) : ℕ × MemoryDpopReplayCache :=
  ((cache.prune now).entries.size, cache.prune now)

end MemoryDpopReplayCache

end Atrib.Verify
