import Mathlib.Algebra.Group.Nat.Defs

/-!
# Decimal texts

A text of digits is determined by its length and the number it stands for, so
it is the decimal form of that number with zeros before it. A text that has no
zero to spare is the decimal form itself.
-/

namespace Atrib.Lib.Decimal

/-- The number that a text of digits stands for. -/
abbrev value (text : List Char) : ℕ := Nat.ofDigitChars 10 text 0

def Digits (text : List Char) : Prop := ∀ c ∈ text, c.isDigit = true

theorem digits_toDigits (n : ℕ) : Digits (Nat.toDigits 10 n) :=
  fun _ hc => Nat.isDigit_of_mem_toDigits (by decide) (by decide) hc

theorem Digits.append {s t : List Char} (hs : Digits s) (ht : Digits t) : Digits (s ++ t) :=
  fun c hc => (List.mem_append.1 hc).elim (hs c) (ht c)

theorem digits_replicate (n : ℕ) : Digits (List.replicate n '0') := by
  intro c hc
  rw [List.eq_of_mem_replicate hc]
  rfl

/-! ## Digits and values -/

theorem digit_bounds {c : Char} (h : c.isDigit = true) : 48 ≤ c.toNat ∧ c.toNat ≤ 57 := by
  simpa [Char.isDigit, UInt32.le_iff_toNat_le] using h

theorem value_append (s t : List Char) : value (s ++ t) = 10 ^ t.length * value s + value t := by
  rw [value, Nat.ofDigitChars_append, Nat.ofDigitChars_eq_ofDigitChars_zero]

theorem value_cons (c : Char) (text : List Char) :
    value (c :: text) = 10 ^ text.length * (c.toNat - '0'.toNat) + value text := by
  rw [← List.singleton_append, value_append]
  simp [value, Nat.ofDigitChars]

theorem value_lt {text : List Char} (h : Digits text) : value text < 10 ^ text.length := by
  induction text with
  | nil => simp [value]
  | cons c text ih =>
      have hc := digit_bounds (h c List.mem_cons_self)
      have htext := ih fun d hd => h d (List.mem_cons_of_mem _ hd)
      have hdigit : c.toNat - '0'.toNat + 1 ≤ 10 := by
        have : '0'.toNat = 48 := rfl
        omega
      calc value (c :: text) = 10 ^ text.length * (c.toNat - '0'.toNat) + value text :=
            value_cons c text
        _ < 10 ^ text.length * (c.toNat - '0'.toNat) + 10 ^ text.length := by omega
        _ = 10 ^ text.length * (c.toNat - '0'.toNat + 1) := (Nat.mul_succ _ _).symm
        _ ≤ 10 ^ text.length * 10 := Nat.mul_le_mul_left _ hdigit
        _ = 10 ^ (c :: text).length := (Nat.pow_succ _ _).symm

theorem eq_of_value_eq {s t : List Char} (hs : Digits s) (ht : Digits t)
    (hlength : s.length = t.length) (hvalue : value s = value t) : s = t := by
  induction s generalizing t with
  | nil => exact (List.length_eq_zero_iff.1 hlength.symm).symm
  | cons c s ih =>
      cases t with
      | nil => cases hlength
      | cons d t =>
          have hlen : s.length = t.length := Nat.succ.inj hlength
          have hs' : Digits s := fun e he => hs e (List.mem_cons_of_mem _ he)
          have ht' : Digits t := fun e he => ht e (List.mem_cons_of_mem _ he)
          have hpos : 0 < 10 ^ t.length := Nat.pow_pos (by decide)
          have hslt : value s < 10 ^ t.length := hlen ▸ value_lt hs'
          rw [value_cons, value_cons, hlen] at hvalue
          have hhead := congrArg (· / 10 ^ t.length) hvalue
          simp only [Nat.mul_add_div hpos, Nat.div_eq_of_lt hslt,
            Nat.div_eq_of_lt (value_lt ht'), Nat.add_zero] at hhead
          have hc := digit_bounds (hs c List.mem_cons_self)
          have hd := digit_bounds (ht d List.mem_cons_self)
          have hzero : '0'.toNat = 48 := rfl
          have hcd : c = d := Char.toNat_inj.1 (by omega)
          rw [hhead] at hvalue
          rw [hcd, ih hs' ht' hlen (Nat.add_left_cancel hvalue)]

/-! ## The decimal form -/

theorem value_replicate_append (n : ℕ) (text : List Char) :
    value (List.replicate n '0' ++ text) = value text := by
  rw [value, Nat.ofDigitChars_append, Nat.ofDigitChars_replicate_zero, Nat.mul_zero]

/-- The decimal form is the shortest. -/
theorem length_toDigits_le {text : List Char} (h : Digits text) (hne : text ≠ []) :
    (Nat.toDigits 10 (value text)).length ≤ text.length :=
  (Nat.length_toDigits_le_iff (by decide) (List.length_pos_iff.2 hne)).2 (value_lt h)

theorem eq_replicate_append_toDigits {text : List Char} (h : Digits text) (hne : text ≠ []) :
    text = List.replicate (text.length - (Nat.toDigits 10 (value text)).length) '0' ++
      Nat.toDigits 10 (value text) := by
  have hle := length_toDigits_le h hne
  refine eq_of_value_eq h ((digits_replicate _).append (digits_toDigits _)) ?_ ?_
  · rw [List.length_append, List.length_replicate]
    omega
  · rw [value_replicate_append]
    exact Nat.ofDigitChars_ten_toDigits.symm

/-- Digits, at least one, and none of them a zero to spare. -/
structure Canonical (text : List Char) : Prop where
  digits : Digits text
  ne_nil : text ≠ []
  head : text.head? = some '0' → text = ['0']

theorem Canonical.toDigits_value {text : List Char} (h : Canonical text) :
    Nat.toDigits 10 (value text) = text := by
  have heq := eq_replicate_append_toDigits h.digits h.ne_nil
  cases hn : text.length - (Nat.toDigits 10 (value text)).length with
  | zero =>
      rw [hn] at heq
      exact heq.symm
  | succ n =>
      rw [hn, List.replicate_succ] at heq
      rw [h.head (by rw [heq]; rfl)]
      rfl

theorem canonical_toDigits (n : ℕ) : Canonical (Nat.toDigits 10 n) := by
  refine ⟨digits_toDigits n, Nat.toDigits_ne_nil, fun hhead => ?_⟩
  cases htext : Nat.toDigits 10 n with
  | nil => exact absurd htext Nat.toDigits_ne_nil
  | cons c rest =>
      rw [htext] at hhead
      obtain rfl : c = '0' := Option.some.inj hhead
      have hrest : Digits rest := fun d hd =>
        digits_toDigits n d (htext ▸ List.mem_cons_of_mem _ hd)
      have hn : n = value rest := by
        have hvalue : value (Nat.toDigits 10 n) = n := Nat.ofDigitChars_ten_toDigits
        rw [htext, value_cons] at hvalue
        simpa using hvalue.symm
      cases hr : rest with
      | nil => rfl
      | cons d more =>
          -- the rest would be a shorter text of the same number
          have hle := length_toDigits_le hrest (by rw [hr]; exact List.cons_ne_nil _ _)
          rw [← hn, htext, List.length_cons] at hle
          omega

end Atrib.Lib.Decimal
