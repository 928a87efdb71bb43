import Atrib.Mcp.Signing
import Atrib.Verify.CheckpointNote

/-!
# The context of a tool call

`packages/mcp/src/context.ts` and `decodeToken` of `token.ts`: what a request's
`_meta` says of the record to chain to, of the trace and of the session, and
what is written into the `_meta` of the result. What is read is text that anyone
may have written.

`encodeToken` of `token.ts` and `writeOutboundContext` are over a result of any shape
but for its `_meta`, which is an object where it is one at all. The key that a token
names is decoded whatever it is: `base64urlDecode` looks at the text of a value, but
at its own length.
-/

namespace Atrib.Middleware

open Lib (JsValue)
open Verify (base64urlDecode isSpace)

/-! ## Texts -/

/-- `chars.split(separator)` -/
def splitChars (separator : Char) (chars : List Char) : List (List Char) :=
  chars.splitOn separator

/-- `chars.trim()` -/
def trimChars (chars : List Char) : List Char :=
  ((chars.dropWhile isSpace).reverse.dropWhile isSpace).reverse

def isOptionalSpace (c : Char) : Bool := c == ' ' || c == '\t'

/-- Up to four characters of optional whitespace, as `[ \t]{0,4}` takes them. -/
def dropOptionalSpace (chars : List Char) : List Char :=
  let spaces := (chars.takeWhile isOptionalSpace).take 4
  chars.drop spaces.length

/-- What follows a key, if the text starts with it. -/
def afterKey (key : String) (chars : List Char) : Option (List Char) :=
  if key.toList.isPrefixOf chars then some (chars.drop key.toList.length) else none

/-- What follows `=`. -/
def afterEquals : List Char → Option (List Char)
  | '=' :: chars => some chars
  | _ => none

/-- `/^[0-9a-f]{length}$/.test(chars)` -/
def isLowerHex (length : ℕ) (chars : List Char) : Bool :=
  chars.length == length && chars.all isLowerHexDigit

/-! ## Tokens -/

structure DecodedToken where
  recordHash : Bytes
  creatorKey : Bytes
deriving DecidableEq

def decodeToken (token : String) : Option DecodedToken := do
  let hashPart := token.toList.takeWhile (· != '.')
  match token.toList.dropWhile (· != '.') with
  | _ :: keyPart =>
      if hashPart = [] ∨ keyPart = [] then none
      let recordHash ← base64urlDecode (String.ofList hashPart)
      let creatorKey ← base64urlDecode (String.ofList keyPart)
      if recordHash.length ≠ 32 ∨ creatorKey.length ≠ 32 then none
      return ⟨recordHash, creatorKey⟩
  | [] => none

/-- `/^atrib[ \t]{0,4}=[ \t]{0,4}(.*)$/`, the group. -/
def atribEntry (entry : List Char) : Option (List Char) := do
  let value ← afterEquals (dropOptionalSpace (← afterKey "atrib" entry))
  let group := dropOptionalSpace value
  if group.all isNoLineBreak then some group else none

def parseTracestateAtrib (tracestate : String) : Option String :=
  (splitChars ',' tracestate.toList).findSome? fun entry =>
    (atribEntry (trimChars entry)).map fun value => String.ofList (trimChars value)

/-- `/^atrib-session\s*=\s*([^;]*)/`, the group. -/
def sessionEntry (entry : List Char) : Option (List Char) := do
  let value ← afterEquals ((← afterKey "atrib-session" entry).dropWhile isSpace)
  return (value.dropWhile isSpace).takeWhile (· != ';')

def parseBaggageAtribSession (baggage : String) : Option String :=
  (splitChars ',' baggage.toList).findSome? fun entry =>
    (sessionEntry (trimChars entry)).map fun value => String.ofList (trimChars value)

/-! ## Trace ids -/

def extractTraceId (traceparent : String) : Option String :=
  let parts := splitChars '-' traceparent.toList
  match parts with
  | version :: traceId :: parentId :: traceFlags :: _ =>
      if !isLowerHex 2 version ∨ version = "ff".toList then none
      else if version = "00".toList ∧ parts.length ≠ 4 then none
      else if !isLowerHex 32 traceId ∨ traceId = List.replicate 32 '0' then none
      else if !isLowerHex 16 parentId ∨ parentId = List.replicate 16 '0' then none
      else if !isLowerHex 2 traceFlags then none
      else some (String.ofList traceId)
  | _ => none

/-- The second part of a traceparent, if it is a trace id by its looks. -/
def secondPart (traceparent : String) : Option String :=
  match splitChars '-' traceparent.toList with
  | _ :: traceId :: _ => if isLowerHex 32 traceId then some (String.ofList traceId) else none
  | _ => none

/-! ## The context -/

structure InboundContext where
  recordHash : Bytes
  creatorKey : Bytes
  contextId : Option String
  sessionToken : Option String
deriving DecidableEq

/-- A member that is a text with something in it. -/
def metaText (members : JsValue) (key : String) : Option String :=
  (members.member key).string?.filter (· ≠ "")

def readInboundContext (params : JsValue) : Option InboundContext := do
  let requestMeta := params.member "_meta"
  let ofMeta := (metaText requestMeta "atrib").bind decodeToken
  let ofTracestate :=
    ((metaText requestMeta "tracestate").bind parseTracestateAtrib).bind fun entry =>
      if entry = "" then none else decodeToken entry
  let xAtribChain := (requestMeta.member "X-Atrib-Chain").orElse (requestMeta.member "x-atrib-chain")
  let ofChain := (xAtribChain.string?.filter (· ≠ "")).bind decodeToken
  let token ← (ofMeta.or ofTracestate).or ofChain
  return {
    recordHash := token.recordHash
    creatorKey := token.creatorKey
    contextId := (metaText requestMeta "traceparent").bind extractTraceId
    sessionToken := (metaText requestMeta "baggage").bind parseBaggageAtribSession }

/-! ## Outbound -/

/-- `/^key\s*=/.test(entry)` -/
def hasKey (key : String) (entry : List Char) : Bool :=
  ((afterKey key entry).bind fun chars => afterEquals (chars.dropWhile isSpace)).isSome

/-- The entries of a list that have another key. -/
def otherEntries (key existing : String) : List (List Char) :=
  ((splitChars ',' existing.toList).map trimChars).filter fun entry =>
    entry ≠ [] && !hasKey key entry

/-- The new entry before the others. -/
def joinEntries (entry : String) (others : List (List Char)) : String :=
  if others = [] then entry
  else entry ++ "," ++ String.ofList (List.intercalate [','] others)

def mergeTracestate (atribEntry existing : String) : String :=
  joinEntries atribEntry ((otherEntries "atrib" existing).take 31)

/-- Take entries from the right until the text has at most 8192 bytes. -/
def capBytes (entry : String) : List (List Char) → String
  | [] => entry
  | first :: others =>
      if (utf8 (joinEntries entry (first :: others))).length ≤ 8192 then
        joinEntries entry (first :: others)
      else capBytes entry (first :: others).dropLast
termination_by others => others.length

def mergeBaggageAtribSession (sessionToken existing : String) : String :=
  capBytes ("atrib-session=" ++ sessionToken) ((otherEntries "atrib-session" existing).take 63)

/-- `value[key] = member`. On an array it leaves no trace in JSON. -/
def withMember (value : JsValue) (key : String) (member : JsValue) : JsValue :=
  match value with
  | .object members =>
      if (members.map Prod.fst).contains key then
        .object (members.map fun entry => if entry.1 = key then (key, member) else entry)
      else .object (members ++ [(key, member)])
  | value => value

/-- What `writeOutboundContext` makes of `result._meta`. -/
def outboundMeta (resultMeta : JsValue) (token : String) (traceparent sessionToken : Option String) :
    JsValue :=
  let existing := if resultMeta.isObject then resultMeta else .object []
  let tracestate := mergeTracestate ("atrib=" ++ token)
    ((existing.member "tracestate").string?.getD "")
  let written := withMember (withMember (withMember existing "atrib" (.string token))
    "tracestate" (.string tracestate)) "X-Atrib-Chain" (.string token)
  let written :=
    match traceparent.filter (· ≠ "") with
    | some traceparent => withMember written "traceparent" (.string traceparent)
    | none => written
  match sessionToken.filter (· ≠ "") with
  | some sessionToken =>
      withMember written "baggage" (.string (mergeBaggageAtribSession sessionToken
        ((written.member "baggage").string?.getD "")))
  | none => written

/-! ## Trace ids are 32 hex digits -/

theorem isHex32_extractTraceId {traceparent traceId : String}
    (h : extractTraceId traceparent = some traceId) : isHex32 traceId = true := by
  rw [extractTraceId] at h
  split at h
  · next version id parentId traceFlags rest _ =>
      repeat' split at h
      all_goals try cases h
      · next hid _ _ =>
          rw [not_or, Bool.not_eq_true, Bool.not_eq_false'] at hid
          simpa [isHex32, isLowerHex] using hid.1
  · cases h

theorem isHex32_secondPart {traceparent traceId : String}
    (h : secondPart traceparent = some traceId) : isHex32 traceId = true := by
  rw [secondPart] at h
  split at h
  · split at h
    · next hid =>
        cases h
        simpa [isHex32, isLowerHex] using hid
    · cases h
  · cases h

theorem isHex32_inbound {params : JsValue} {inbound : InboundContext} {contextId : String}
    (h : readInboundContext params = some inbound) (hcontext : inbound.contextId = some contextId) :
    isHex32 contextId = true := by
  simp only [readInboundContext, Option.bind_eq_bind, Option.bind_eq_some_iff] at h
  obtain ⟨token, -, hinbound⟩ := h
  cases hinbound
  simp only [Option.bind_eq_some_iff] at hcontext
  obtain ⟨traceparent, -, hid⟩ := hcontext
  exact isHex32_extractTraceId hid

end Atrib.Middleware

namespace Atrib.Middleware.Outbound

open Lib (JsValue)
open Verify (base64urlValue)

/-- `base64urlDecode(value)`. What has no length gives no bytes, an array only without items:
the text of one with more of them has a comma. -/
def base64urlDecode (P : Platform) : JsValue → Except String Bytes
  | .string text => decodeText (.string text)
  | .undefined => throw "Cannot read properties of undefined (reading 'length')"
  | .null => throw "Cannot read properties of null (reading 'length')"
  | .bool _ => return []
  | .number x =>
      if (P.text.toText x).toList.all fun c => (base64urlValue c).isSome then return []
      else throw "base64urlDecode: invalid"
  | .array [] => return []
  | _ => throw "base64urlDecode: invalid"

def encodeToken (P : Platform) (record : JsValue) : Except String String := do
  let recordHash := P.hash.sha256 (← canonicalBytes P record)
  let creatorKeyBytes ← base64urlDecode P (record.member "creator_key")
  return base64urlEncode recordHash ++ "." ++ base64urlEncode creatorKeyBytes

structure OutboundContextOptions where
  traceparent : Option String
  sessionToken : Option String

def writeOutboundContext (P : Platform) (result signedRecord : JsValue)
    (options : OutboundContextOptions) : Except String JsValue := do
  let token ← encodeToken P signedRecord
  return withMember result "_meta"
    (outboundMeta (result.member "_meta") token options.traceparent options.sessionToken)

end Atrib.Middleware.Outbound
