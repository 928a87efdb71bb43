import Atrib.Proofs.Encodings

/-!
# The spellings of a text in base64url

A group of four characters has 24 bits, those of three bytes. A last group of
three characters has two bits more than its bytes, one of two has four, and the
decoder drops them without a look. So the bytes of a text are spelled like it
when these bits are zero, and each byte sequence that ends in such a group has
other spellings, which decode to it as well.
-/

namespace Atrib.Verify

/-! ## Characters and their numbers -/

theorem base64urlValue_some {c : Char} {n : ℕ} (h : base64urlValue c = some n) :
    n < 64 ∧ base64urlChar n = c := by
  obtain ⟨hn, hc, -⟩ := List.idxOf?_eq_some_iff.1 h
  refine ⟨hn, ?_⟩
  rw [base64urlChar, List.getD_eq_getElem _ _ hn]
  exact hc

theorem mapM_base64urlValue {chars : List Char} {values : List ℕ}
    (h : chars.mapM base64urlValue = some values) :
    (∀ n ∈ values, n < 64) ∧ chars = values.map base64urlChar := by
  induction chars generalizing values with
  | nil =>
      cases h
      exact ⟨by simp, rfl⟩
  | cons c chars ih =>
      rw [List.mapM_cons] at h
      obtain ⟨n, hn, h⟩ := Option.bind_eq_some_iff.1 h
      obtain ⟨rest, hrest, h⟩ := Option.bind_eq_some_iff.1 h
      cases h
      obtain ⟨hlt, hchar⟩ := base64urlValue_some hn
      obtain ⟨hall, hchars⟩ := ih hrest
      refine ⟨List.forall_mem_cons.2 ⟨hlt, hall⟩, ?_⟩
      rw [List.map_cons, hchar, ← hchars]

theorem base64urlChars_eq_map (bytes : Bytes) :
    base64urlChars bytes = (base64urlValues bytes).map base64urlChar := by
  fun_induction base64urlChars bytes with
  | case1 | case2 | case3 => rfl
  | case4 b0 b1 b2 bytes ih => rw [base64urlValues, ih]; rfl

/-! ## The last group -/

/-- The bits of the last character that are in no byte are zero. -/
def lastGroupFits : List Char → Bool
  | _ :: _ :: _ :: _ :: chars => lastGroupFits chars
  | [_, _, c2] => "AEIMQUYcgkosw048".toList.contains c2
  | [_, c1] => "AQgw".toList.contains c1
  | _ => true

theorem contains_of_pair {n : ℕ} (h : n < 64) :
    "AQgw".toList.contains (base64urlChar n) = decide (n % 16 = 0) := by
  revert n
  decide +kernel

theorem contains_of_triple {n : ℕ} (h : n < 64) :
    "AEIMQUYcgkosw048".toList.contains (base64urlChar n) = decide (n % 4 = 0) := by
  revert n
  decide +kernel

/-- The bytes of numbers below 64 have these numbers again, but for what the last group drops. -/
theorem base64urlValues_base64urlBytes {values : List ℕ} (hlt : ∀ n ∈ values, n < 64)
    (hlength : values.length % 4 ≠ 1) :
    base64urlValues (base64urlBytes values) = values ↔
      lastGroupFits (values.map base64urlChar) = true := by
  fun_induction base64urlBytes values with
  | case1 c0 c1 c2 c3 chars ih =>
      simp only [List.forall_mem_cons] at hlt
      obtain ⟨h0, h1, h2, h3, hlt⟩ := hlt
      rw [List.length_cons, List.length_cons, List.length_cons, List.length_cons] at hlength
      have ih := ih hlt (by omega)
      simp only [List.map_cons, lastGroupFits, ← ih, base64urlValues, UInt8.toNat_ofNat',
        List.cons.injEq]
      constructor
      · rintro ⟨-, -, -, -, hrest⟩
        exact hrest
      · intro hrest
        exact ⟨by omega, by omega, by omega, by omega, hrest⟩
  | case2 c0 c1 c2 =>
      simp only [List.forall_mem_cons] at hlt
      obtain ⟨h0, h1, h2, -⟩ := hlt
      simp only [List.map_cons, List.map_nil, lastGroupFits, contains_of_triple h2,
        base64urlValues, UInt8.toNat_ofNat', List.cons.injEq, decide_eq_true_iff, and_true]
      omega
  | case3 c0 c1 =>
      simp only [List.forall_mem_cons] at hlt
      obtain ⟨h0, h1, -⟩ := hlt
      simp only [List.map_cons, List.map_nil, lastGroupFits, contains_of_pair h1,
        base64urlValues, UInt8.toNat_ofNat', List.cons.injEq, decide_eq_true_iff, and_true]
      omega
  | case4 values h4 h3 h2 =>
      rcases values with _ | ⟨c0, _ | ⟨c1, _ | ⟨c2, _ | ⟨c3, chars⟩⟩⟩⟩
      · simp [base64urlValues, lastGroupFits]
      · exact absurd rfl hlength
      · exact absurd rfl (h2 c0 c1)
      · exact absurd rfl (h3 c0 c1 c2)
      · exact absurd rfl (h4 c0 c1 c2 c3 chars)

/-! ## Texts -/

theorem base64urlEncode_of_decode {text : String} {bytes : Bytes}
    (h : base64urlDecode text = some bytes) :
    Atrib.base64urlEncode bytes = text ↔ lastGroupFits text.toList = true := by
  obtain ⟨values, hvalues, h⟩ := Option.bind_eq_some_iff.1 h
  obtain ⟨_, hguard, h⟩ := Option.bind_eq_some_iff.1 h
  cases h
  obtain ⟨hlt, hchars⟩ := mapM_base64urlValue hvalues
  have hfits := base64urlValues_base64urlBytes hlt (by simpa using hguard)
  rw [Atrib.base64urlEncode, ← String.toList_inj, String.toList_ofList]
  constructor
  · intro hsame
    rw [hchars, ← hfits]
    rw [← hsame, mapM_base64urlChars] at hvalues
    exact Option.some.inj hvalues
  · intro hlast
    rw [hchars] at hlast ⊢
    rw [base64urlChars_eq_map, hfits.2 hlast]

/-- What is encoded reads back, and what is read was encoded just when the last group fits. -/
theorem base64url_bijective_iff (text : String) :
    (∀ bytes, base64urlDecode (Atrib.base64urlEncode bytes) = some bytes) ∧
    ((∀ bytes, base64urlDecode text = some bytes → Atrib.base64urlEncode bytes = text) ↔
      ((base64urlDecode text).isSome → lastGroupFits text.toList = true)) := by
  refine ⟨base64urlDecode_base64urlEncode, ?_⟩
  constructor
  · intro hall hsome
    obtain ⟨bytes, hbytes⟩ := Option.isSome_iff_exists.1 hsome
    exact (base64urlEncode_of_decode hbytes).1 (hall bytes hbytes)
  · intro hfits bytes hbytes
    exact (base64urlEncode_of_decode hbytes).2 (hfits (by rw [hbytes]; rfl))

/-- Two spellings of a key of 32 bytes, which is that of a private key of 32 ones. -/
theorem key_spelled_twice :
    let key := "iojj3XQJ8ZX9UtstPLpdcspnCb8dlBIb83SIAbQPb1w"
    let other := "iojj3XQJ8ZX9UtstPLpdcspnCb8dlBIb83SIAbQPb1x"
    (base64urlDecode key).map List.length = some 32 ∧
      base64urlDecode other = base64urlDecode key ∧
      (base64urlDecode other).map Atrib.base64urlEncode = some key ∧ other ≠ key := by
  decide +kernel

end Atrib.Verify
