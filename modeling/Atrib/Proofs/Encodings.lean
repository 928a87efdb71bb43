import Atrib.Mcp.Refs
import Atrib.Verify.Delegation

/-!
# What is encoded reads back

Bytes are written three at a time as four characters of base64url, six bits
each, and what is left over as two or three. Reading the characters gives the
bytes back, so different bytes have different texts. The same is true of the
hex digits of a digest, of UTF-8 and of the code units of a text.
-/

namespace Atrib

/-! ## Characters -/

/-- The characters of a text, from its bytes where it is ASCII. -/
def charsOf (text : String) : List Char :=
  let bytes := text.toByteArray.data.toList
  if bytes.all (· < 128) then bytes.map fun b => Char.ofNat b.toNat else text.toList

theorem toByteArray_eq_flatMap (text : String) :
    text.toByteArray.data.toList = text.toList.flatMap String.utf8EncodeChar := by
  rw [← String.utf8Encode_toList, List.utf8Encode]
  simp

theorem map_utf8EncodeChar {chars : List Char}
    (h : (chars.flatMap String.utf8EncodeChar).all (· < 128) = true) :
    (chars.flatMap String.utf8EncodeChar).map (fun b => Char.ofNat b.toNat) = chars := by
  induction chars with
  | nil => rfl
  | cons c chars ih =>
      rw [List.flatMap_cons, List.all_append, Bool.and_eq_true] at h
      have hc : String.utf8EncodeChar c = [UInt8.ofNat c.toNat] ∧ c.toNat < 128 := by
        have hfirst := h.1
        unfold String.utf8EncodeChar at hfirst ⊢
        simp only at hfirst ⊢
        split at hfirst
        · next hle => exact ⟨if_pos hle, Nat.lt_succ_of_le hle⟩
        · exfalso
          split at hfirst
          · simp [UInt8.lt_iff_toNat_lt] at hfirst
            omega
          · split at hfirst
            · simp [UInt8.lt_iff_toNat_lt] at hfirst
              omega
            · simp [UInt8.lt_iff_toNat_lt] at hfirst
              omega
      rw [List.flatMap_cons, hc.1, List.map_append, ih h.2]
      simp [Nat.mod_eq_of_lt (show c.toNat < 256 by omega), Char.ofNat_toNat]

theorem toList_eq_charsOf (text : String) : text.toList = charsOf text := by
  unfold charsOf
  rw [toByteArray_eq_flatMap]
  simp only
  split
  · next h => exact (map_utf8EncodeChar h).symm
  · rfl

end Atrib

namespace Atrib.Verify

/-! ## base64url -/

/-- The number that the character with a code stands for. -/
def sextet (code : ℕ) : Option ℕ :=
  if code < 48 then if code = 45 then some 62 else none
  else if code < 58 then some (code + 4)
  else if code < 65 then none
  else if code < 91 then some (code - 65)
  else if code < 97 then if code = 95 then some 63 else none
  else if code < 123 then some (code - 71)
  else none

theorem base64urlValue_eq_sextet (c : Char) : base64urlValue c = sextet c.toNat := by
  have hascii : ∀ row < 8, ∀ column < 16,
      base64urlValue (Char.ofNat (16 * row + column)) = sextet (16 * row + column) := by
    decide +kernel
  by_cases hc : c.toNat < 128
  · have hrow := hascii (c.toNat / 16) (by omega) (c.toNat % 16) (by omega)
    rwa [Nat.div_add_mod, Char.ofNat_toNat] at hrow
  · have hletters : "ABCDEFGHIJKLMNOPQRSTUVWXYZabcdefghijklmnopqrstuvwxyz0123456789-_".toList.all
        (fun letter => letter.toNat < 128) = true := by decide +kernel
    have hnone : base64urlValue c = none := List.idxOf?_eq_none_iff.2 fun hmem =>
      hc (of_decide_eq_true (List.all_eq_true.1 hletters c hmem))
    rw [hnone, sextet]
    repeat rw [if_neg (by omega)]

theorem base64urlDecode_eq (text : String) : base64urlDecode text = do
    let chars ← (charsOf text).mapM fun c => sextet c.toNat
    guard (chars.length % 4 ≠ 1)
    return base64urlBytes chars := by
  have hvalue : base64urlValue = fun c => sextet c.toNat := funext base64urlValue_eq_sextet
  rw [base64urlDecode, toList_eq_charsOf, hvalue]

/-- The numbers that the characters stand for. -/
def base64urlValues : Bytes → List ℕ
  | [] => []
  | [b0] => [b0.toNat / 4, b0.toNat % 4 * 16]
  | [b0, b1] => [b0.toNat / 4, b0.toNat % 4 * 16 + b1.toNat / 16, b1.toNat % 16 * 4]
  | b0 :: b1 :: b2 :: bytes =>
      b0.toNat / 4 :: (b0.toNat % 4 * 16 + b1.toNat / 16) :: (b1.toNat % 16 * 4 + b2.toNat / 64) ::
        b2.toNat % 64 :: base64urlValues bytes

theorem base64urlValue_base64urlChar {n : ℕ} (h : n < 64) :
    base64urlValue (base64urlChar n) = some n := by
  revert n
  decide +kernel

theorem mapM_base64urlChars (bytes : Bytes) :
    (base64urlChars bytes).mapM base64urlValue = some (base64urlValues bytes) := by
  fun_induction base64urlChars bytes with
  | case1 => rfl
  | case2 b0 =>
      have h0 := b0.toNat_lt
      simp [base64urlValues, base64urlValue_base64urlChar (n := b0.toNat / 4) (by omega),
        base64urlValue_base64urlChar (n := b0.toNat % 4 * 16) (by omega)]
  | case3 b0 b1 =>
      have h0 := b0.toNat_lt
      have h1 := b1.toNat_lt
      simp [base64urlValues, base64urlValue_base64urlChar (n := b0.toNat / 4) (by omega),
        base64urlValue_base64urlChar (n := b0.toNat % 4 * 16 + b1.toNat / 16) (by omega),
        base64urlValue_base64urlChar (n := b1.toNat % 16 * 4) (by omega)]
  | case4 b0 b1 b2 bytes ih =>
      have h0 := b0.toNat_lt
      have h1 := b1.toNat_lt
      have h2 := b2.toNat_lt
      simp [base64urlValues, ih, base64urlValue_base64urlChar (n := b0.toNat / 4) (by omega),
        base64urlValue_base64urlChar (n := b0.toNat % 4 * 16 + b1.toNat / 16) (by omega),
        base64urlValue_base64urlChar (n := b1.toNat % 16 * 4 + b2.toNat / 64) (by omega),
        base64urlValue_base64urlChar (n := b2.toNat % 64) (by omega)]

theorem length_base64urlValues (bytes : Bytes) : (base64urlValues bytes).length % 4 ≠ 1 := by
  fun_induction base64urlValues bytes with
  | case1 | case2 | case3 => simp
  | case4 b0 b1 b2 bytes ih => simp only [List.length_cons]; omega

theorem base64urlBytes_base64urlValues (bytes : Bytes) :
    base64urlBytes (base64urlValues bytes) = bytes := by
  fun_induction base64urlValues bytes with
  | case1 => rfl
  | case2 b0 =>
      have h0 := b0.toNat_lt
      have hval : b0.toNat / 4 * 4 + b0.toNat % 4 * 16 / 16 = b0.toNat := by omega
      simp only [base64urlBytes, hval, UInt8.ofNat_toNat]
  | case3 b0 b1 =>
      have h0 := b0.toNat_lt
      have h1 := b1.toNat_lt
      have hval0 : b0.toNat / 4 * 4 + (b0.toNat % 4 * 16 + b1.toNat / 16) / 16 = b0.toNat := by
        omega
      have hval1 : (b0.toNat % 4 * 16 + b1.toNat / 16) % 16 * 16 + b1.toNat % 16 * 4 / 4 =
          b1.toNat := by omega
      simp only [base64urlBytes, hval0, hval1, UInt8.ofNat_toNat]
  | case4 b0 b1 b2 bytes ih =>
      have h0 := b0.toNat_lt
      have h1 := b1.toNat_lt
      have h2 := b2.toNat_lt
      have hval0 : b0.toNat / 4 * 4 + (b0.toNat % 4 * 16 + b1.toNat / 16) / 16 = b0.toNat := by
        omega
      have hval1 : (b0.toNat % 4 * 16 + b1.toNat / 16) % 16 * 16 +
          (b1.toNat % 16 * 4 + b2.toNat / 64) / 4 = b1.toNat := by omega
      have hval2 : (b1.toNat % 16 * 4 + b2.toNat / 64) % 4 * 64 + b2.toNat % 64 = b2.toNat := by
        omega
      rw [base64urlBytes, hval0, hval1, hval2, ih, UInt8.ofNat_toNat, UInt8.ofNat_toNat,
        UInt8.ofNat_toNat]

theorem base64urlDecode_base64urlEncode (bytes : Bytes) :
    base64urlDecode (Atrib.base64urlEncode bytes) = some bytes := by
  rw [base64urlDecode, Atrib.base64urlEncode, String.toList_ofList, mapM_base64urlChars]
  simp [length_base64urlValues, base64urlBytes_base64urlValues]

theorem base64urlEncode_inj {a b : Bytes} (h : Atrib.base64urlEncode a = Atrib.base64urlEncode b) :
    a = b := by
  have hdecoded := congrArg base64urlDecode h
  rw [base64urlDecode_base64urlEncode, base64urlDecode_base64urlEncode] at hdecoded
  exact Option.some.inj hdecoded

end Atrib.Verify

namespace Atrib

/-! ## Texts and digests -/

theorem sha256Ref_inj {a b : Bytes} (h : sha256Ref a = sha256Ref b) : a = b := by
  have hhex := congrArg hexDecode ((String.append_right_inj _).1 h)
  rw [hexDecode_hexEncode, hexDecode_hexEncode] at hhex
  exact Except.ok.inj hhex

theorem utf8_inj {a b : String} (h : utf8 a = utf8 b) : a = b := by
  rw [utf8_eq_data, utf8_eq_data, Array.toList_inj] at h
  exact String.toByteArray_inj.1 (ByteArray.ext h)

/-! ## Code units -/

/-- One unit, or a pair of surrogates. -/
def unitsOf (c : Char) : List ℕ :=
  if c.toNat < 0x10000 then [c.toNat]
  else [0xd800 + (c.toNat - 0x10000) / 0x400, 0xdc00 + (c.toNat - 0x10000) % 0x400]

/-- A character is no surrogate, so the first unit says how many there are. -/
theorem unitsOf_append_inj {c d : Char} {x y : List ℕ} (h : unitsOf c ++ x = unitsOf d ++ y) :
    c = d ∧ x = y := by
  have hc : c.toNat < 0xd800 ∨ 0xdfff < c.toNat ∧ c.toNat < 0x110000 := c.valid
  have hd : d.toNat < 0xd800 ∨ 0xdfff < d.toNat ∧ d.toNat < 0x110000 := d.valid
  unfold unitsOf at h
  split at h <;> split at h <;> simp only [List.cons_append, List.nil_append, List.cons.injEq] at h
  · exact ⟨Char.toNat_inj.1 h.1, h.2⟩
  · omega
  · omega
  · exact ⟨Char.toNat_inj.1 (by omega), h.2.2⟩

theorem unitsOf_ne_nil (c : Char) : unitsOf c ≠ [] := by
  unfold unitsOf
  split <;> simp

theorem flatMap_unitsOf_inj {cs ds : List Char} (h : cs.flatMap unitsOf = ds.flatMap unitsOf) :
    cs = ds := by
  induction cs generalizing ds with
  | nil =>
      cases ds with
      | nil => rfl
      | cons d ds => exact absurd (List.append_eq_nil_iff.1 h.symm).1 (unitsOf_ne_nil d)
  | cons c cs ih =>
      cases ds with
      | nil => exact absurd (List.append_eq_nil_iff.1 h).1 (unitsOf_ne_nil c)
      | cons d ds =>
          obtain ⟨hhead, htail⟩ := unitsOf_append_inj h
          rw [hhead, ih htail]

theorem codeUnits_inj {a b : String} (h : Lib.JsValue.codeUnits a = Lib.JsValue.codeUnits b) :
    a = b := String.toList_inj.1 (flatMap_unitsOf_inj h)

end Atrib
