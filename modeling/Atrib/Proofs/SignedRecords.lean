import Atrib.Mcp.Signing
import Atrib.Proofs.Encodings

/-!
# Records with a signature

A record is signed without its signature and carries it as its last member, so what
is verified is what has been signed. Whatever members a record has besides, it
verifies under the public key of the key that it was signed with.
-/

namespace Atrib.Middleware

open Lib (JsValue)
open Verify (base64urlDecode_base64urlEncode)

theorem lookup_append_of_ne {members : List (String × JsValue)} {key : String} {value : JsValue}
    (h : ∀ entry ∈ members, entry.1 ≠ key) :
    (members ++ [(key, value)]).lookup key = some value := by
  induction members with
  | nil => simp
  | cons entry members ih =>
      have hkey : (key == entry.1) = false := by
        simpa using (h entry List.mem_cons_self).symm
      rw [List.cons_append, List.lookup_cons, hkey]
      exact ih fun entry' hentry => h entry' (List.mem_cons_of_mem _ hentry)

theorem lookup_eq_none_of_ne {members : List (String × JsValue)} {key : String}
    (h : ∀ entry ∈ members, entry.1 ≠ key) : members.lookup key = none := by
  rw [List.lookup_eq_none_iff]
  intro entry hentry
  simpa using (h entry hentry).symm

theorem isHex32_hexEncode (random : { bytes : Bytes // bytes.length = 16 }) : isHex32 (hexEncode random.val) = true := by
  have hall : (hexDigits random.val).all isLowerHexDigit = true := by
    rw [List.all_eq_true]
    intro c hc
    obtain ⟨n, hn, rfl⟩ := mem_hexDigits hc
    exact (hexDigit_spec hn).2.1
  rw [isHex32, toList_hexEncode, length_hexDigits, random.property, hall]
  rfl

/-- Members of which none is a signature. -/
def Unsigned (members : List (String × JsValue)) : Prop :=
  ∀ entry ∈ members, entry.1 ≠ "signature" ∧ entry.1 ≠ "signers"

section

variable {members : List (String × JsValue)} (h : Unsigned members) (signature : String)
include h

theorem Unsigned.without_signature :
    (withSignature members signature).without "signature" = .object members := by
  have hkept : members.filter (fun entry => decide (entry.1 ≠ "signature")) = members :=
    List.filter_eq_self.2 fun entry hentry => by simpa using (h entry hentry).1
  rw [withSignature, JsValue.without, List.filter_append, hkept]
  simp

theorem Unsigned.member_signature :
    (withSignature members signature).member "signature" = .string signature := by
  have hlookup : (members ++ [("signature", JsValue.string signature)]).lookup "signature" =
      some (.string signature) :=
    lookup_append_of_ne fun entry hentry => (h entry hentry).1
  simp [withSignature, JsValue.member, JsValue.get, Except.toOption, hlookup]

theorem Unsigned.member_signers :
    (withSignature members signature).member "signers" = .undefined := by
  have hlookup : (members ++ [("signature", JsValue.string signature)]).lookup "signers" = none := by
    refine lookup_eq_none_of_ne fun entry hentry => ?_
    rcases List.mem_append.1 hentry with hentry | hentry
    · exact (h entry hentry).2
    · rw [List.mem_singleton.1 hentry]
      simp
  simp [withSignature, JsValue.member, JsValue.get, Except.toOption, hlookup]

end

/-- What is signed with a key verifies under its public key. -/
theorem Unsigned.verifySignature {P : Platform} (hP : P.Lawful) {key : Bytes}
    (hlength : key.length = 32) {members : List (String × JsValue)} (h : Unsigned members)
    {signature : String}
    (hkey : (withSignature members signature).member "creator_key" =
      .string (base64urlEncode (P.getPublicKey key)))
    (hsignature : signatureOf P (withSignature members "") key = .ok signature) :
    verifySignature P (withSignature members signature) = .ok true := by
  have hdecoded : decodeText (.string (base64urlEncode (P.getPublicKey key))) =
      .ok (P.getPublicKey key) := by
    rw [decodeText, base64urlDecode_base64urlEncode]
    rfl
  cases hinput : canonicalSigningInput P (withSignature members "") with
  | error e =>
      rw [signatureOf, hinput] at hsignature
      cases hsignature
  | ok message =>
      rw [signatureOf, hinput] at hsignature
      obtain rfl : base64urlEncode (P.sign message key) = signature := Except.ok.inj hsignature
      have hsigning : canonicalSigningInput P (withSignature members
          (base64urlEncode (P.sign message key))) = .ok message := by
        rw [canonicalSigningInput, h.without_signature] at hinput ⊢
        exact hinput
      have hsig : decodeText (.string (base64urlEncode (P.sign message key))) =
          .ok (P.sign message key) := by
        rw [decodeText, base64urlDecode_base64urlEncode]
        rfl
      unfold Middleware.verifySignature
      simp [hkey, hdecoded, h.member_signers, h.member_signature, hsig, hsigning,
        hP.length_getPublicKey _ hlength, hP.length_sign _ _ hlength, hP.verify_sign _ _ hlength,
        JsValue.array?, Bind.bind, Except.bind, Pure.pure, Except.pure]

end Atrib.Middleware
