import Atrib.Mcp.Record

/-!
# Record-hash references

`hexDecode` of `packages/mcp/src/hash.ts` and the pattern of
`packages/mcp/src/refs.ts`: the text `sha256:` and 64 lowercase hex digits.
-/

namespace Atrib

/-- `/^[0-9a-fA-F]*$/`, for one character. -/
def isHexDigit (c : Char) : Bool :=
  ('0' ≤ c && c ≤ '9') || ('a' ≤ c && c ≤ 'f') || ('A' ≤ c && c ≤ 'F')

/-- `[0-9a-f]` -/
def isLowerHexDigit (c : Char) : Bool := ('0' ≤ c && c ≤ '9') || ('a' ≤ c && c ≤ 'f')

/-- `parseInt(c, 16)` of a hex digit. -/
def hexDigitValue (c : Char) : ℕ :=
  if c ≤ '9' then c.toNat - '0'.toNat
  else if c ≤ 'F' then c.toNat - 'A'.toNat + 10
  else c.toNat - 'a'.toNat + 10

/-- Two digits give a byte. -/
def hexBytes : List Char → Bytes
  | high :: low :: digits =>
      UInt8.ofNat (hexDigitValue high * 16 + hexDigitValue low) :: hexBytes digits
  | _ => []

def hexDecode (hex : String) : Except String Bytes :=
  if hex.toList.length % 2 ≠ 0 ∨ !hex.toList.all isHexDigit then
    .error "hexDecode: invalid hex string"
  else .ok (hexBytes hex.toList)

/-- `SHA256_REF_PATTERN.test` -/
def isSha256Ref (text : String) : Bool :=
  hasHashPrefix text && (text.toList.drop 7).length == 64 &&
    (text.toList.drop 7).all isLowerHexDigit

theorem hexDigit_spec {n : ℕ} (hn : n < 16) :
    hexDigitValue (hexDigit n) = n ∧ isLowerHexDigit (hexDigit n) = true ∧
      isHexDigit (hexDigit n) = true := by
  revert n
  decide

/-- The digits a byte string is written in. -/
def hexDigits (bytes : Bytes) : List Char :=
  bytes.flatMap fun b => [hexDigit (b.toNat / 16), hexDigit (b.toNat % 16)]

@[simp] theorem toList_hexEncode (bytes : Bytes) :
    (hexEncode bytes).toList = hexDigits bytes := by
  rw [hexEncode, String.toList_ofList, hexDigits]

@[simp] theorem length_hexDigits (bytes : Bytes) :
    (hexDigits bytes).length = 2 * bytes.length := by
  induction bytes with
  | nil => rfl
  | cons b bytes ih =>
      rw [hexDigits, List.flatMap_cons, List.length_append, ← hexDigits, ih]
      simp
      omega

theorem mem_hexDigits {bytes : Bytes} {c : Char} (h : c ∈ hexDigits bytes) :
    ∃ n < 16, c = hexDigit n := by
  obtain ⟨b, -, hc⟩ := List.mem_flatMap.1 h
  have hb := b.toNat_lt
  simp only [List.mem_cons, List.not_mem_nil, or_false] at hc
  rcases hc with rfl | rfl
  · exact ⟨_, by omega, rfl⟩
  · exact ⟨_, by omega, rfl⟩

/-- What is written in hex reads back. -/
theorem hexBytes_hexDigits (bytes : Bytes) : hexBytes (hexDigits bytes) = bytes := by
  induction bytes with
  | nil => rfl
  | cons b bytes ih =>
      have hb := b.toNat_lt
      have hval : b.toNat / 16 * 16 + b.toNat % 16 = b.toNat := by omega
      rw [hexDigits, List.flatMap_cons, List.cons_append, List.cons_append, List.nil_append,
        ← hexDigits, hexBytes, ih, (hexDigit_spec (n := b.toNat / 16) (by omega)).1,
        (hexDigit_spec (n := b.toNat % 16) (by omega)).1, hval, UInt8.ofNat_toNat]

theorem hexDecode_hexEncode (bytes : Bytes) : hexDecode (hexEncode bytes) = .ok bytes := by
  have hall : (hexDigits bytes).all isHexDigit = true := by
    rw [List.all_eq_true]
    intro c hc
    obtain ⟨n, hn, rfl⟩ := mem_hexDigits hc
    exact (hexDigit_spec hn).2.2
  rw [hexDecode, toList_hexEncode, if_neg (by simp [hall]), hexBytes_hexDigits]

/-- The reference to a digest. -/
def sha256Ref (digest : Bytes) : String := "sha256:" ++ hexEncode digest

theorem toList_sha256Ref (digest : Bytes) :
    (sha256Ref digest).toList = "sha256:".toList ++ hexDigits digest := by
  rw [sha256Ref, String.toList_append, toList_hexEncode]

@[simp] theorem afterHashPrefix_sha256Ref (digest : Bytes) :
    afterHashPrefix (sha256Ref digest) = hexEncode digest := by
  rw [afterHashPrefix, toList_sha256Ref]
  rfl

theorem isSha256Ref_sha256Ref {digest : Bytes} (h : digest.length = 32) :
    isSha256Ref (sha256Ref digest) = true := by
  have hdrop : (sha256Ref digest).toList.drop 7 = hexDigits digest := by
    rw [toList_sha256Ref]
    rfl
  have hall : (hexDigits digest).all isLowerHexDigit = true := by
    rw [List.all_eq_true]
    intro c hc
    obtain ⟨n, hn, rfl⟩ := mem_hexDigits hc
    exact (hexDigit_spec hn).2.1
  have hstart : hasHashPrefix (sha256Ref digest) = true := by
    rw [hasHashPrefix, toList_sha256Ref, List.isPrefixOf_iff_prefix]
    exact List.prefix_append _ _
  rw [isSha256Ref, hdrop, hstart, hall, length_hexDigits, h]
  rfl

end Atrib
