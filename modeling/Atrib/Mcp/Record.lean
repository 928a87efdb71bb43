import Atrib.Mcp.Hash
import Mathlib.Data.Int.Notation

/-!
# Attribution records

The record of `packages/mcp/src/types.ts` with the members that the graph
service reads, its hash, and the texts made of hashes. JCS and Ed25519 are
libraries to the source; a `RecordCodec` holds what it calls of them.
-/

namespace Atrib

structure AtribRecord where
  contentId : Option String := none
  creatorKey : String
  chainRoot : String
  eventType : String
  contextId : String
  timestamp : ℤ
  annotates : Option String := none
  revises : Option String := none
  informedBy : Option (List String) := none
  provenanceToken : Option String := none
  sessionToken : Option String := none
  /-- The members of a `key_revocation` record. -/
  revokedKey : Option String := none
  revocationReason : Option String := none
  successorKey : Option String := none
  emergencySignedBy : Option String := none
  /-- All further members (signatures, hashes of arguments and results, …). -/
  rest : List (String × String) := []
deriving DecidableEq

/-- Serialization and signature check. The check is made again and again over
the life of a record; it comes out the same since its one reference to the
clock is an upper bound on the timestamp, which a record has met on ingest. -/
structure RecordCodec where
  canonicalRecord : AtribRecord → Bytes
  verifyRecord : AtribRecord → Bool

/-- `TextEncoder.encode` -/
def utf8 (text : String) : Bytes := text.toUTF8.toList

theorem toList_loop (bytes : ByteArray) (i : ℕ) (r : List UInt8) :
    ByteArray.toList.loop bytes i r = r.reverse ++ bytes.data.toList.drop i := by
  induction hn : bytes.size - i generalizing i r with
  | zero =>
      rw [ByteArray.toList.loop, if_neg (by omega), List.drop_eq_nil_of_le, List.append_nil]
      have : bytes.data.toList.length = bytes.size := by simp
      omega
  | succ n ih =>
      have hi : i < bytes.size := by omega
      have hlength : i < bytes.data.toList.length := by simpa using hi
      rw [ByteArray.toList.loop, if_pos hi, ih (i + 1) _ (by omega), List.reverse_cons,
        List.append_assoc, List.drop_eq_getElem_cons hlength]
      congr 2
      simp [ByteArray.get!, hi]

/-- The bytes as they are stored, which the kernel has sooner. -/
theorem utf8_eq_data (text : String) : utf8 text = text.toByteArray.data.toList := by
  rw [utf8, ByteArray.toList, toList_loop]
  rfl

/-- The bytes of a text, one character after the other. -/
theorem utf8_eq (text : String) : utf8 text = text.toList.flatMap String.utf8EncodeChar := by
  rw [utf8_eq_data, ← String.utf8Encode_toList, List.utf8Encode]
  simp

theorem utf8_ofList (chars : List Char) :
    utf8 (String.ofList chars) = chars.flatMap String.utf8EncodeChar := by
  rw [utf8_eq, String.toList_ofList]

def hexDigit (n : ℕ) : Char := "0123456789abcdef".toList.getD n '0'

def hexEncode (bytes : Bytes) : String :=
  String.ofList (bytes.flatMap fun b => [hexDigit (b.toNat / 16), hexDigit (b.toNat % 16)])

def base64urlChar (n : ℕ) : Char :=
  "ABCDEFGHIJKLMNOPQRSTUVWXYZabcdefghijklmnopqrstuvwxyz0123456789-_".toList.getD n 'A'

/-- Three bytes give four characters, a rest of one or two bytes two or three. -/
def base64urlChars : Bytes → List Char
  | [] => []
  | [b0] => [base64urlChar (b0.toNat / 4), base64urlChar (b0.toNat % 4 * 16)]
  | [b0, b1] =>
      [base64urlChar (b0.toNat / 4), base64urlChar (b0.toNat % 4 * 16 + b1.toNat / 16),
        base64urlChar (b1.toNat % 16 * 4)]
  | b0 :: b1 :: b2 :: bytes =>
      base64urlChar (b0.toNat / 4) :: base64urlChar (b0.toNat % 4 * 16 + b1.toNat / 16) ::
        base64urlChar (b1.toNat % 16 * 4 + b2.toNat / 64) :: base64urlChar (b2.toNat % 64) ::
          base64urlChars bytes

def base64urlEncode (bytes : Bytes) : String := String.ofList (base64urlChars bytes)

/-- `sha256(canonicalRecord(record))` -/
def recordDigest (H : Hash) (codec : RecordCodec) (record : AtribRecord) : Bytes :=
  H.sha256 (codec.canonicalRecord record)

def genesisChainRoot (H : Hash) (contextId : String) : String :=
  "sha256:" ++ hexEncode (H.sha256 (utf8 contextId))

/-- `text.startsWith('sha256:')` -/
def hasHashPrefix (text : String) : Bool := "sha256:".toList.isPrefixOf text.toList

/-- `text.slice('sha256:'.length)` -/
def afterHashPrefix (text : String) : String := String.ofList (text.toList.drop 7)

/-- Take the first occurrence of a pattern out of a text. -/
def dropFirst (pattern : List Char) : List Char → List Char
  | [] => []
  | c :: text =>
      if pattern.isPrefixOf (c :: text) then (c :: text).drop pattern.length
      else c :: dropFirst pattern text

/-- `text.replace('sha256:', '')` -/
def withoutHashPrefix (text : String) : String :=
  String.ofList (dropFirst "sha256:".toList text.toList)

end Atrib
