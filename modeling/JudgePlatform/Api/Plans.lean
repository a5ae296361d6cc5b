/-
# Plans

What a college may use is set by its plan: the seats for its users and the
submissions of a month.  A bound is absent where the source has `Infinity`.
-/
import Mathlib

namespace Billing

structure Plan where
  seatLimit : Option ℕ
  submissionQuotaPerMonth : Option ℕ
  deriving DecidableEq

def free : Plan := ⟨some 15, some 500⟩

def pro : Plan := ⟨none, none⟩

/-- The names that `PLANS` inherits from `Object.prototype`.  Under them stands something
that is no plan and has no limits. -/
def inherited : List String :=
  ["constructor", "__defineGetter__", "__defineSetter__", "hasOwnProperty", "__lookupGetter__",
    "__lookupSetter__", "isPrototypeOf", "propertyIsEnumerable", "toString", "valueOf",
    "__proto__", "toLocaleString"]

/-- `PLANS[planId] || PLANS.free` -/
def getPlan (planId : Option String) : Plan :=
  match planId with
  | some id => if id = "pro" then pro else if id ∈ inherited then ⟨none, none⟩ else free
  | none => free

/-- What the limits of a college depend on. -/
structure College where
  id : String
  planId : Option String

end Billing
