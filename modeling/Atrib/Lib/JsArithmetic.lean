import Atrib.Lib.JsValue
import Mathlib.Algebra.Order.Monoid.WithTop

/-!
# Arithmetic of a dynamic language

`a + b`, `a * b` and `a / b`. Addition puts texts together as soon as one side
is a text; the others make numbers of both sides. The numbers that are not below
every bound, `WithTop ℚ`, add up and compare as they do in the language, so a
sum of them can be reasoned about where it is a sum.
-/

namespace Atrib.Lib

namespace JsNumber

/-- `a * b` -/
def mul : JsNumber → JsNumber → JsNumber
  | .finite a, .finite b => .finite (a * b)
  | .finite a, .infinite negative | .infinite negative, .finite a =>
      if a = 0 then .nan else .infinite (decide (a < 0) ^^ negative)
  | .infinite a, .infinite b => .infinite (a ^^ b)
  | _, _ => .nan

/-- `a / b` -/
def div : JsNumber → JsNumber → JsNumber
  | .finite a, .finite b =>
      if b ≠ 0 then .finite (a / b) else if a = 0 then .nan else .infinite (decide (a < 0))
  | .finite _, .infinite _ => .finite 0
  | .infinite negative, .finite b => .infinite (negative ^^ decide (b < 0))
  | _, _ => .nan

/-- A number with no upper bound of its own. -/
def ofTop : WithTop ℚ → JsNumber
  | none => .infinite false
  | some q => .finite q

@[simp] theorem ofTop_coe (q : ℚ) : ofTop (q : WithTop ℚ) = .finite q := rfl

@[simp] theorem ofTop_top : ofTop ⊤ = .infinite false := rfl

theorem ofTop_injective : Function.Injective ofTop := by
  intro a b h
  cases a <;> cases b <;> simp_all

@[simp] theorem ofTop_add (a b : WithTop ℚ) : (ofTop a).add (ofTop b) = ofTop (a + b) := by
  cases a <;> cases b <;> simp [add, ← WithTop.coe_add]

@[simp] theorem ofTop_lt (a b : WithTop ℚ) : (ofTop a).lt (ofTop b) = decide (a < b) := by
  cases a <;> cases b <;> simp [lt]

end JsNumber

namespace JsValue

variable (text : NumberText)

/-- `Number(value)` -/
def toNumber (value : JsValue) : Except String JsNumber := do
  return (← value.toPrimitive text).primitiveToNumber text

/-- `a + b` -/
def add (a b : JsValue) : Except String JsValue := do
  let a ← a.toPrimitive text
  let b ← b.toPrimitive text
  match a, b with
  | .string a, b => return .string (a ++ (← b.toText text))
  | a, .string b => return .string ((← a.toText text) ++ b)
  | a, b => return .number ((a.primitiveToNumber text).add (b.primitiveToNumber text))

/-- `Object.values(value)` -/
def ownValues : JsValue → List JsValue
  | .object members => members.map Prod.snd
  | .array items => items
  | .string s => s.toList.map fun c => .string (String.singleton c)
  | _ => []

@[simp] theorem add_number (a b : JsNumber) :
    add text (.number a) (.number b) = .ok (.number (a.add b)) := rfl

@[simp] theorem lessThan_number (a b : JsNumber) :
    lessThan text (.number a) (.number b) = .ok (a.lt b) := rfl

@[simp] theorem toNumber_number (x : JsNumber) : toNumber text (.number x) = .ok x := rfl

/-- A member that is a number is one of the values of its object. -/
theorem mem_ownValues_of_member {value : JsValue} {key : String} {x : JsNumber}
    (h : value.member key = .number x) : .number x ∈ value.ownValues := by
  have hget := get_of_member h nofun
  cases value with
  | object members =>
      simp only [get, Except.ok.injEq] at hget
      cases hfound : members.lookup key with
      | none => simp [hfound] at hget
      | some found =>
          obtain rfl : found = .number x := by simpa [hfound] using hget
          obtain ⟨l, r, rfl, -⟩ := List.lookup_eq_some_iff.1 hfound
          simp [ownValues]
  | array items =>
      simp only [get, Except.ok.injEq] at hget
      split at hget
      · cases hget
      · cases hget
  | _ => cases h

end JsValue

end Atrib.Lib
