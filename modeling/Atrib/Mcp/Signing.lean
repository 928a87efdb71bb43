import Atrib.Mcp.LocalSubstrate
import Atrib.Verify.Delegation

/-!
# Signing and verifying records

`packages/mcp/src/signing.ts`, the signing inputs of `canon.ts` and the check of
event types of `types.ts`. A record is a value as it comes, of any shape; what
throws makes `verifyRecord` answer false.

Ed25519 is a library, and so is JCS. `Lawful` is what RFC 8032 says of a key of
32 bytes: the lengths of what is made with it, and that its own signatures
verify.
-/

namespace Atrib.Middleware

open Lib (JsNumber JsValue NumberText)
open LocalSubstrate (isObject startsWith)
open Verify (base64urlDecode)

structure Platform extends LocalSubstrate.Platform where
  getPublicKey : Bytes → Bytes
  sign : (message privateKey : Bytes) → Bytes
  /-- with `zip215: false` -/
  verify : (signature message publicKey : Bytes) → Bool
  text : NumberText

structure Platform.Lawful (P : Platform) : Prop where
  length_getPublicKey : ∀ key : Bytes, key.length = 32 → (P.getPublicKey key).length = 32
  length_sign : ∀ message key : Bytes, key.length = 32 → (P.sign message key).length = 64
  verify_sign : ∀ message key : Bytes, key.length = 32 →
    P.verify (P.sign message key) message (P.getPublicKey key) = true

def EVENT_TYPE_TOOL_CALL_URI : String := "https://atrib.dev/v1/types/tool_call"
def EVENT_TYPE_TRANSACTION_URI : String := "https://atrib.dev/v1/types/transaction"

/-! ## Event types -/

def isSchemeStart (c : Char) : Bool := c.isAlpha

def isSchemeChar (c : Char) : Bool := c.isAlphanum || c == '+' || c == '-' || c == '.'

/-- `.` -/
def isNoLineBreak (c : Char) : Bool :=
  c != '\n' && c != '\r' && c.toNat != 0x2028 && c.toNat != 0x2029

/-- `/^([A-Za-z][A-Za-z0-9+\-.]*):(.+)$/.exec(value)` -/
def schemeAndRest (value : String) : Option (List Char × List Char) :=
  let scheme := value.toList.takeWhile isSchemeChar
  match scheme, value.toList.dropWhile isSchemeChar with
  | first :: _, ':' :: rest =>
      if isSchemeStart first && rest ≠ [] && rest.all isNoLineBreak then some (scheme, rest)
      else none
  | _, _ => none

def isValidEventTypeUri (value : JsValue) : Bool :=
  match value with
  | .string text =>
      let length := (JsValue.codeUnits text).length
      if length = 0 ∨ 256 < length then false
      else if text.toList.contains '#' then false
      else
        match schemeAndRest text with
        | none => false
        | some (scheme, rest) =>
            if scheme = "http".toList ∨ scheme = "https".toList then
              "//".toList.isPrefixOf rest &&
                ((rest.drop 2).takeWhile fun c => c != '/' && c != '?') ≠ []
            else true
  | _ => false

/-- `HEX_32.test(text)` -/
def isHex32 (text : String) : Bool := text.toList.length == 32 && text.toList.all isLowerHexDigit

/-! ## Signing -/

section

variable (P : Platform)

/-- `canonicalize` and `encoder.encode`. -/
def canonicalBytes (value : JsValue) : Except String Bytes := do
  match ← P.canonicalize value with
  | none => throw "atrib: canonicalization produced undefined"
  | some json => return utf8 json

def canonicalSigningInput (record : JsValue) : Except String Bytes :=
  canonicalBytes P (record.without "signature")

def canonicalCrossAttestationInput (record : JsValue) : Except String Bytes :=
  match (record.without "signature").without "signers" with
  | .object members => canonicalBytes P (.object (members ++ [("signers", .array [])]))
  | value => canonicalBytes P value

/-- The text of a signature over an unsigned record. -/
def signatureOf (record : JsValue) (privateKey : Bytes) : Except String String :=
  return base64urlEncode (P.sign (← canonicalSigningInput P record) privateKey)

/-- `{ ...members, signature }` -/
def withSignature (members : List (String × JsValue)) (signature : String) : JsValue :=
  .object (members ++ [("signature", .string signature)])

/-! ## Verifying -/

/-- `base64urlDecode(value)`. What it makes of a value that is no text is of no use to the
callers: it throws, or there are no bytes. -/
def decodeText (value : JsValue) : Except String Bytes :=
  match value with
  | .string text => (base64urlDecode text).elim (.error "base64urlDecode: invalid") .ok
  | _ => .ok []

/-- The first of `record.signers` with the creator's key. -/
def findCreatorSigner (creatorKey : JsValue) : List JsValue → Except String (Option JsValue)
  | [] => return none
  | entry :: entries => do
      if (← entry.get "creator_key").strictEq creatorKey then return some entry
      findCreatorSigner creatorKey entries

/-- Steps 1 to 4. -/
def verifySignature (record : JsValue) : Except String Bool := do
  let pubKeyBytes ← decodeText (record.member "creator_key")
  if pubKeyBytes.length ≠ 32 then return false
  let signers := (record.member "signers").array?.getD []
  if (record.member "event_type").strictEq (.string EVENT_TYPE_TRANSACTION_URI) && signers ≠ [] then
    match ← findCreatorSigner (record.member "creator_key") signers with
    | none => return false
    | some creatorSigner =>
        let sigBytes ← decodeText (← creatorSigner.get "signature")
        if sigBytes.length ≠ 64 then return false
        return P.verify sigBytes (← canonicalCrossAttestationInput P record) pubKeyBytes
  else
    match record.member "signature" with
    | .string signature =>
        let sigBytes ← decodeText (.string signature)
        if sigBytes.length ≠ 64 then return false
        return P.verify sigBytes (← canonicalSigningInput P record) pubKeyBytes
    | _ => return false

/-- `Number.isInteger(value) && value >= 0`, the number. -/
def natural? : JsValue → Option ℕ
  | .number (.finite q) => if q.isInt ∧ 0 ≤ q then some q.num.toNat else none
  | _ => none

/-- Step 7. -/
def verifyTimestamp (timestamp : JsValue) (nowMs : JsNumber) : Bool :=
  match natural? timestamp, natural? (.number nowMs) with
  | some timestamp, some nowMs => timestamp ≤ nowMs + 5 * 60 * 1000
  | _, _ => false

def verifyRecord (record : JsValue) (nowMs : JsNumber) : Bool :=
  ((verifySignature P record).toOption.getD false) &&
    (record.member "spec_version").strictEq (.string "atrib/1.0") &&
    isValidEventTypeUri (record.member "event_type") &&
    verifyTimestamp (record.member "timestamp") nowMs &&
    (record.member "context_id").string?.any (isHex32 ·)

end

end Atrib.Middleware
