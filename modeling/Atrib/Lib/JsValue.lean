import Mathlib.Data.List.Lex
import Mathlib.Data.Rat.Defs
import Mathlib.Algebra.Order.Ring.Rat
import Mathlib.Tactic.NormNum

/-!
# Values of a dynamic language

What a program in JavaScript gets from `JSON.parse`, and what its operators do
with it: reading a member, `===`, `<` and `<=`, conversion to a text or a
number. A value of any shape may stand where the program expects another, and
most operators do something with it; a few throw a `TypeError`.

Numbers are exact. How a number is written as a text, and read from one, is a
parameter (`NumberText`). Two parsed objects are never the same object, so `===`
is false of objects and arrays. The members of an object are data: a member
called `toString` hides the method of that name and cannot be called.
-/

namespace Atrib.Lib

inductive JsNumber where
  | finite (q : ℚ)
  | infinite (negative : Bool)
  | nan
deriving DecidableEq

namespace JsNumber

/-- `a < b` -/
def lt : JsNumber → JsNumber → Bool
  | .finite a, .finite b => a < b
  | .finite _, .infinite negative => !negative
  | .infinite negative, .finite _ => negative
  | .infinite a, .infinite b => a && !b
  | _, _ => false

/-- `a === b` -/
def eq (a b : JsNumber) : Bool := a ≠ .nan ∧ a = b

/-- `a <= b` -/
def le (a b : JsNumber) : Bool := a.lt b || a.eq b

/-- `a - b` -/
def sub : JsNumber → JsNumber → JsNumber
  | .finite a, .finite b => .finite (a - b)
  | .finite _, .infinite negative => .infinite !negative
  | .infinite negative, .finite _ => .infinite negative
  | .infinite a, .infinite b => if a = b then .nan else .infinite a
  | _, _ => .nan

/-- `a + b` -/
def add : JsNumber → JsNumber → JsNumber
  | .finite a, .finite b => .finite (a + b)
  | .finite _, .infinite negative => .infinite negative
  | .infinite negative, .finite _ => .infinite negative
  | .infinite a, .infinite b => if a = b then .infinite a else .nan
  | _, _ => .nan

/-- `Math.max(a, b)` -/
def max (a b : JsNumber) : JsNumber :=
  match a, b with
  | .nan, _ | _, .nan => .nan
  | a, b => if a.lt b then b else a

/-- The natural number a non-negative safe integer is. -/
def safeIndex? : JsNumber → Option ℕ
  | .finite q => if q.isInt ∧ 0 ≤ q ∧ q ≤ 2 ^ 53 - 1 then some q.num.toNat else none
  | _ => none

theorem safeIndex?_natCast {n : ℕ} (h : n ≤ 2 ^ 53 - 1) :
    (JsNumber.finite n).safeIndex? = some n := by
  have hsafe : (n : ℚ).isInt ∧ 0 ≤ (n : ℚ) ∧ (n : ℚ) ≤ 2 ^ 53 - 1 := by
    refine ⟨rfl, Nat.cast_nonneg n, ?_⟩
    have : ((n : ℕ) : ℚ) ≤ ((2 ^ 53 - 1 : ℕ) : ℚ) := Nat.cast_le.2 h
    norm_num at this ⊢
    exact this
  rw [safeIndex?, if_pos hsafe]
  rfl

theorem safeIndex?_le {x : JsNumber} {n : ℕ} (h : x.safeIndex? = some n) : n ≤ 2 ^ 53 - 1 := by
  unfold safeIndex? at h
  split at h
  · next q =>
      split at h
      · next hsafe =>
          obtain ⟨hint, hnonneg, hle⟩ := hsafe
          obtain rfl := Option.some.inj h
          have hnum : ((q.num.toNat : ℤ) : ℚ) = q := by
            rw [Int.toNat_of_nonneg (Rat.num_nonneg.2 hnonneg)]
            exact (Rat.eq_num_of_isInt hint).symm
          have hcast : ((q.num.toNat : ℕ) : ℚ) ≤ ((2 ^ 53 - 1 : ℕ) : ℚ) := by
            rw [← Int.cast_natCast, hnum]
            norm_num at hle ⊢
            exact hle
          exact_mod_cast hcast
      · cases h
  · cases h

end JsNumber

inductive JsValue where
  | undefined
  | null
  | bool (b : Bool)
  | number (x : JsNumber)
  | string (text : String)
  | array (items : List JsValue)
  | object (members : List (String × JsValue))
  | function

/-- How numbers are written and read: `String(x)`, `Number(text)` and
`BigInt(text)`. -/
structure NumberText where
  toText : JsNumber → String
  ofText : String → JsNumber
  bigInt : String → Option ℤ

namespace JsValue

/-! ## Equality -/

mutual

/-- Two values with the same shape and the same contents. -/
def same : JsValue → JsValue → Bool
  | .undefined, .undefined | .null, .null | .function, .function => true
  | .bool a, .bool b => a == b
  | .number a, .number b => decide (a = b)
  | .string a, .string b => a == b
  | .array a, .array b => sameItems a b
  | .object a, .object b => sameMembers a b
  | _, _ => false

def sameItems : List JsValue → List JsValue → Bool
  | [], [] => true
  | a :: as, b :: bs => same a b && sameItems as bs
  | _, _ => false

def sameMembers : List (String × JsValue) → List (String × JsValue) → Bool
  | [], [] => true
  | (key, a) :: as, (key', b) :: bs => key == key' && same a b && sameMembers as bs
  | _, _ => false

end

mutual

theorem same_iff : ∀ a b : JsValue, same a b = true ↔ a = b
  | .array a, b => by
      cases b with
      | array b => simp only [same, sameItems_iff a b, array.injEq]
      | _ => simp [same]
  | .object a, b => by
      cases b with
      | object b => simp only [same, sameMembers_iff a b, object.injEq]
      | _ => simp [same]
  | .undefined, b | .null, b | .bool _, b | .number _, b | .string _, b | .function, b => by
      cases b <;> simp [same]

theorem sameItems_iff : ∀ a b : List JsValue, sameItems a b = true ↔ a = b
  | [], b => by cases b <;> simp [sameItems]
  | a :: as, b => by
      cases b with
      | nil => simp [sameItems]
      | cons b bs => simp [sameItems, same_iff a b, sameItems_iff as bs]

theorem sameMembers_iff : ∀ a b : List (String × JsValue), sameMembers a b = true ↔ a = b
  | [], b => by cases b <;> simp [sameMembers]
  | (key, a) :: as, b => by
      cases b with
      | nil => simp [sameMembers]
      | cons b bs =>
          obtain ⟨key', b⟩ := b
          simp [sameMembers, same_iff a b, sameMembers_iff as bs]

end

instance : DecidableEq JsValue := fun a b => decidable_of_iff (same a b = true) (same_iff a b)

/-! ## Members and operators -/

/-- The methods an array has under names of their own. -/
def arrayMethods : List String :=
  ["at", "concat", "copyWithin", "entries", "every", "fill", "filter", "find", "findIndex",
    "findLast", "findLastIndex", "flat", "flatMap", "forEach", "includes", "indexOf", "join",
    "keys", "lastIndexOf", "map", "pop", "push", "reduce", "reduceRight", "reverse", "shift",
    "slice", "some", "sort", "splice", "toReversed", "toSorted", "toSpliced", "unshift",
    "values", "with"]

/-- `value.key`, for a key that no text, number or plain object inherits. -/
def get (value : JsValue) (key : String) : Except String JsValue :=
  match value with
  | .undefined => .error ("Cannot read properties of undefined (reading '" ++ key ++ "')")
  | .null => .error ("Cannot read properties of null (reading '" ++ key ++ "')")
  | .object members => .ok ((members.lookup key).getD .undefined)
  | .array _ => .ok (if key ∈ arrayMethods then .function else .undefined)
  | _ => .ok .undefined

/-- `value?.key` -/
def member (value : JsValue) (key : String) : JsValue := (value.get key).toOption.getD .undefined

theorem get_of_member {value found : JsValue} {key : String} (h : value.member key = found)
    (hfound : found ≠ .undefined) : value.get key = .ok found := by
  rw [member] at h
  cases hget : value.get key with
  | ok v =>
      rw [hget] at h
      exact congrArg Except.ok h
  | error e =>
      rw [hget] at h
      exact absurd h.symm hfound

theorem member_of_get {value found : JsValue} {key : String} (h : value.get key = .ok found) :
    value.member key = found := by
  rw [member, h]
  rfl

/-- `value ?? other` -/
def orElse : JsValue → JsValue → JsValue
  | .undefined, other | .null, other => other
  | value, _ => value

/-- `!!value` -/
def truthy : JsValue → Bool
  | .undefined | .null => false
  | .bool b => b
  | .number x => x ≠ .finite 0 ∧ x ≠ .nan
  | .string text => text ≠ ""
  | _ => true

/-- `a === b` -/
def strictEq : JsValue → JsValue → Bool
  | .undefined, .undefined | .null, .null => true
  | .bool a, .bool b => a = b
  | .number a, .number b => a.eq b
  | .string a, .string b => a = b
  | _, _ => false

def string? : JsValue → Option String
  | .string text => some text
  | _ => none

theorem eq_string_of_string? {value : JsValue} {text : String} (h : value.string? = some text) :
    value = .string text := by
  cases value with
  | string s => exact congrArg JsValue.string (Option.some.inj h)
  | _ => cases h

theorem string?_eq_some {value : JsValue} {text : String} :
    value.string? = some text ↔ value = .string text := by
  cases value <;> simp [string?]

def number? : JsValue → Option JsNumber
  | .number x => some x
  | _ => none

def array? : JsValue → Option (List JsValue)
  | .array items => some items
  | _ => none

/-- `typeof value === 'object'`, for a value that is not null. -/
def isObject : JsValue → Bool
  | .array _ | .object _ => true
  | _ => false

def isNullish : JsValue → Bool
  | .undefined | .null => true
  | _ => false

/-- It is the nullish values of which no member can be read. -/
theorem get_eq_error {value : JsValue} {key : String} :
    (∃ e, value.get key = .error e) ↔ value.isNullish = true := by
  cases value <;> simp [get, isNullish]

/-- Only an object has a member that is a text. -/
theorem eq_object_of_member {value : JsValue} {key text : String}
    (h : value.member key = .string text) : ∃ members, value = .object members := by
  cases value with
  | object members => exact ⟨members, rfl⟩
  | array items =>
      have hget := get_of_member h nofun
      simp only [get, Except.ok.injEq] at hget
      split at hget
      · cases hget
      · cases hget
  | _ => cases h

@[simp] theorem strictEq_string (a b : String) :
    (JsValue.string a).strictEq (.string b) = decide (a = b) := rfl

@[simp] theorem strictEq_finite (a b : ℚ) :
    (JsValue.number (.finite a)).strictEq (.number (.finite b)) = decide (a = b) := by
  simp [strictEq, JsNumber.eq]

/-- `{ ...value }` without one member. -/
def without (value : JsValue) (key : String) : JsValue :=
  match value with
  | .object members => .object (members.filter fun member => member.1 ≠ key)
  | value => value

/-! ## Conversions -/

variable (text : NumberText)

mutual

/-- `String(value)` -/
def toText : JsValue → Except String String
  | .undefined => .ok "undefined"
  | .null => .ok "null"
  | .bool b => .ok (toString b)
  | .number x => .ok (text.toText x)
  | .string s => .ok s
  | .array items => return ",".intercalate (← itemTexts items)
  | .object members =>
      if (members.map Prod.fst).contains "toString" then
        .error "Cannot convert object to primitive value"
      else .ok "[object Object]"
  | .function => .ok "function"

/-- The texts `join` puts together. -/
def itemTexts : List JsValue → Except String (List String)
  | [] => .ok []
  | item :: items => do
      let first ← toText item
      let rest ← itemTexts items
      return (if item.isNullish then "" else first) :: rest

end

/-- An array and an object become texts, with either hint. -/
def toPrimitive (value : JsValue) : Except String JsValue :=
  match value with
  | .array _ | .object _ | .function => .string <$> value.toText text
  | value => .ok value

/-- A primitive has a text. -/
theorem toPrimitive_eq_error {value : JsValue} :
    (∃ e, value.toPrimitive text = .error e) ↔ ∃ e, value.toText text = .error e := by
  have hmap : ∀ result : Except String String,
      (∃ e, JsValue.string <$> result = .error e) ↔ ∃ e, result = .error e := by
    intro result
    cases result <;> simp [Functor.map, Except.map]
  cases value with
  | array items => exact hmap _
  | object members => exact hmap _
  | function => exact hmap _
  | _ => simp [toPrimitive, toText]

/-- `Number(value)` of a primitive. -/
def primitiveToNumber : JsValue → JsNumber
  | .null => .finite 0
  | .bool b => .finite (if b then 1 else 0)
  | .number x => x
  | .string s => text.ofText s
  | _ => .nan

/-- `BigInt(value)` -/
def toBigInt (value : JsValue) : Except String ℤ := do
  match ← value.toPrimitive text with
  | .bool b => return if b then 1 else 0
  | .number (.finite q) =>
      if q.isInt then return q.num
      else throw "The number cannot be converted to a BigInt because it is not an integer"
  | .string s => ((text.bigInt s).map Except.ok).getD (throw "Cannot convert the text to a BigInt")
  | _ => throw "Cannot convert the value to a BigInt"

/-- The code units of a text, by which texts are ordered. -/
def codeUnits (s : String) : List ℕ :=
  s.toList.flatMap fun c =>
    if c.toNat < 0x10000 then [c.toNat]
    else [0xd800 + (c.toNat - 0x10000) / 0x400, 0xdc00 + (c.toNat - 0x10000) % 0x400]

/-- `a < b` -/
def lessThan (a b : JsValue) : Except String Bool := do
  let a ← a.toPrimitive text
  let b ← b.toPrimitive text
  match a, b with
  | .string a, .string b => return codeUnits a < codeUnits b
  | a, b => return (a.primitiveToNumber text).lt (b.primitiveToNumber text)

/-- `a <= b` -/
def lessEq (a b : JsValue) : Except String Bool := do
  let a ← a.toPrimitive text
  let b ← b.toPrimitive text
  match a, b with
  | .string a, .string b => return codeUnits a ≤ codeUnits b
  | a, b => return (a.primitiveToNumber text).le (b.primitiveToNumber text)

/-- Both sides become primitives, whatever they are. -/
theorem bind_toPrimitive_eq_error (compare : JsValue → JsValue → Bool) {a b : JsValue} :
    (∃ e, (do
      let a ← a.toPrimitive text
      let b ← b.toPrimitive text
      return compare a b : Except String Bool) = .error e) ↔
      (∃ e, a.toText text = .error e) ∨ ∃ e, b.toText text = .error e := by
  rw [← toPrimitive_eq_error, ← toPrimitive_eq_error]
  cases a.toPrimitive text with
  | error e => simp [bind, Except.bind]
  | ok a =>
      cases b.toPrimitive text with
      | error e => simp [bind, Except.bind]
      | ok b => simp [bind, Except.bind, pure, Except.pure]

theorem lessThan_eq_error {a b : JsValue} :
    (∃ e, a.lessThan text b = .error e) ↔
      (∃ e, a.toText text = .error e) ∨ ∃ e, b.toText text = .error e := by
  rw [← bind_toPrimitive_eq_error text (fun a b => match a, b with
    | .string a, .string b => decide (codeUnits a < codeUnits b)
    | a, b => (a.primitiveToNumber text).lt (b.primitiveToNumber text))]
  refine exists_congr fun e => ?_
  rw [lessThan]
  refine Eq.congr_left (congrArg _ (funext fun a => congrArg _ (funext fun b => ?_)))
  split <;> rfl

theorem lessEq_eq_error {a b : JsValue} :
    (∃ e, a.lessEq text b = .error e) ↔
      (∃ e, a.toText text = .error e) ∨ ∃ e, b.toText text = .error e := by
  rw [← bind_toPrimitive_eq_error text (fun a b => match a, b with
    | .string a, .string b => decide (codeUnits a ≤ codeUnits b)
    | a, b => (a.primitiveToNumber text).le (b.primitiveToNumber text))]
  refine exists_congr fun e => ?_
  rw [lessEq]
  refine Eq.congr_left (congrArg _ (funext fun a => congrArg _ (funext fun b => ?_)))
  split <;> rfl

end JsValue

end Atrib.Lib
