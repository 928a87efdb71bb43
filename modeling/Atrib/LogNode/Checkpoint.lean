import Atrib.Verify.CheckpointNote
import Atrib.Verify.Delegation

/-!
# The checkpoints a log signs

`services/log-node/src/checkpoint.ts`: three lines for the name of the log, the
size of its tree and the root, and under a blank line the signature of the log
over them.

`Buffer.toString('base64')` writes the standard alphabet with padding.
`Buffer.from` reads either alphabet, up to the first sign of equality, and
passes over what is in neither.
-/

namespace Atrib.Verify

def base64Char (n : ℕ) : Char :=
  "ABCDEFGHIJKLMNOPQRSTUVWXYZabcdefghijklmnopqrstuvwxyz0123456789+/".toList.getD n 'A'

/-- Three bytes give four characters; a rest is padded to four. -/
def base64Chars : Bytes → List Char
  | [] => []
  | [b0] => [base64Char (b0.toNat / 4), base64Char (b0.toNat % 4 * 16), '=', '=']
  | [b0, b1] =>
      [base64Char (b0.toNat / 4), base64Char (b0.toNat % 4 * 16 + b1.toNat / 16),
        base64Char (b1.toNat % 16 * 4), '=']
  | b0 :: b1 :: b2 :: bytes =>
      base64Char (b0.toNat / 4) :: base64Char (b0.toNat % 4 * 16 + b1.toNat / 16) ::
        base64Char (b1.toNat % 16 * 4 + b2.toNat / 64) :: base64Char (b2.toNat % 64) ::
          base64Chars bytes

/-- The value of a character in either alphabet. -/
def base64Value (c : Char) : Option ℕ :=
  if c = '+' then some 62 else if c = '/' then some 63 else base64urlValue c

def base64Bytes (chars : List Char) : Bytes :=
  base64urlBytes ((chars.takeWhile (· ≠ '=')).filterMap base64Value)

def Buffers.node : Buffers where
  ofBase64 text := base64Bytes text.toList
  toBase64 bytes := String.ofList (base64Chars bytes)
  ofBase64url text := base64Bytes text.toList

end Atrib.Verify

namespace Atrib.LogNode

open Verify (Buffers)

variable (H : Hash) (buffers : Buffers)

def formatCheckpointBody (origin : String) (treeSize : ℕ) (rootHash : Bytes) : String :=
  origin ++ "\n" ++ toString treeSize ++ "\n" ++ buffers.toBase64 rootHash ++ "\n"

def computeKeyId (origin : String) (publicKey : Bytes) : Bytes :=
  (H.sha256 (utf8 origin ++ 0x0a :: 0x01 :: publicKey)).take 4

structure CheckpointSigner where
  sign : (treeSize : ℕ) → (rootHash : Bytes) → String
  publicKey : Bytes
  keyId : Bytes
  origin : String

/-- The line that stands under a body. -/
def signatureLine (origin : String) (keyId sigBytes : Bytes) : String :=
  "— " ++ origin ++ " " ++ buffers.toBase64 (keyId ++ sigBytes)

/-- `ed.signAsync` is a parameter. -/
def createCheckpointSigner (signAsync : (message privateKey : Bytes) → Bytes)
    (privateKey publicKey : Bytes) (origin : String) : CheckpointSigner where
  sign treeSize rootHash :=
    let body := formatCheckpointBody buffers origin treeSize rootHash
    let sigBytes := signAsync (utf8 body) privateKey
    body ++ "\n" ++ signatureLine buffers origin (computeKeyId H origin publicKey) sigBytes ++ "\n"
  publicKey := publicKey
  keyId := computeKeyId H origin publicKey
  origin := origin

end Atrib.LogNode
