import Onboarding.Variables
import Onboarding.Text.Blank

/-!
# Onboarding — conditions

A condition is a comparison of one variable with a value, or a combination of
conditions. `Condition.holds` evaluates it over variables.

`null` and a missing value are the same thing on both sides of a comparison.
Two values are ordered as numbers when both read as finite numbers, else by the
texts they are shown as; with `null` or nothing there is no order. An operator
that is not known never holds.
-/

namespace Onboarding

/-! ## Operators -/

/-- How a variable is compared with a value. -/
inductive Operator where
  | equals
  | notEquals
  | greaterThan
  | lessThan
  | contains
  | isIn
  | isEmpty
  | isNotEmpty
  | unknown (name : String)
deriving DecidableEq

namespace Operator

/-- The operator of a name. -/
def ofName : String → Operator
  | "equals" => equals
  | "not_equals" => notEquals
  | "greater_than" => greaterThan
  | "less_than" => lessThan
  | "contains" => contains
  | "in" => isIn
  | "is_empty" => isEmpty
  | "is_not_empty" => isNotEmpty
  | name => unknown name

/-- The name of an operator. -/
def name : Operator → String
  | equals => "equals"
  | notEquals => "not_equals"
  | greaterThan => "greater_than"
  | lessThan => "less_than"
  | contains => "contains"
  | isIn => "in"
  | isEmpty => "is_empty"
  | isNotEmpty => "is_not_empty"
  | unknown name => name

end Operator

/-! ## Conditions -/

/-- A condition on variables. -/
inductive Condition where
  | leaf (variableName : String) (operator : Operator) (value : Option Json)
  | all (parts : List Condition)
  | any (parts : List Condition)
  | not (part : Condition)

namespace Condition

instance : Inhabited Condition := ⟨all []⟩

/-- The comparison of a variable with a given value. -/
def compare (variableName operatorName : String) (value : Json) : Condition :=
  leaf variableName (.ofName operatorName) (some value)

mutual

/-- The variables that a condition names, in order. -/
def variableNames : Condition → List String
  | leaf name _ _ => [name]
  | all parts => variableNamesOf parts
  | any parts => variableNamesOf parts
  | not part => variableNames part

/-- The variables that the parts name, in order. -/
def variableNamesOf : List Condition → List String
  | [] => []
  | part :: rest => variableNames part ++ variableNamesOf rest

end

end Condition

/-! ## Comparisons -/

namespace Comparison

/-- A value that is there and not `null`. -/
def present? : Option Json → Option Json
  | some .null => none
  | v => v

/-- Equality where numbers agree if their doubles do, and `null` is nothing. -/
def agree (actual expected : Option Json) : Bool :=
  match present? actual, present? expected with
  | none, none => true
  | some (.number a), some (.number b) => a.toFinite.same b.toFinite
  | some a, some b => a.same b
  | _, _ => false

/-- The finite number that a value reads as. -/
def toNumber? : Json → Option Finite
  | .number n => some n.toFinite
  | .string s => (Decimal.readBinary64? (Text.trim s.toList)).bind Binary64.toFinite?
  | _ => none

/-- The order of two values. -/
def order (actual expected : Json) : Ordering :=
  match toNumber? actual, toNumber? expected with
  | some a, some b => a.compare b
  | _, _ => compareOfLessAndEq actual.display expected.display

/-- The order of two values, if both are there. -/
def order? (actual expected : Option Json) : Option Ordering :=
  match present? actual, present? expected with
  | some a, some b => some (order a b)
  | _, _ => none

/-- Whether a value holds nothing. -/
def isEmpty : Option Json → Bool
  | none | some .null => true
  | some (.string s) => s.isEmpty
  | some (.array xs) => xs.isEmpty
  | some (.object ms) => ms.isEmpty
  | some _ => false

/-- Whether a text contains a text, or a list an item. -/
def contains (actual expected : Option Json) : Bool :=
  match actual, expected with
  | some (.string s), some (.string t) => Text.occursIn t.toList s.toList
  | some (.array xs), some v => xs.any fun x => agree (some x) (some v)
  | _, _ => false

/-- Whether a value is among the items of a list. -/
def isAmong (actual expected : Option Json) : Bool :=
  match actual, expected with
  | some v, some (.array xs) => xs.any fun x => agree (some v) (some x)
  | _, _ => false

/-- Whether an operator holds between the value of a variable and a given value. -/
def holds (actual : Option Json) (operator : Operator) (expected : Option Json) : Bool :=
  match operator with
  | .equals => agree actual expected
  | .notEquals => !agree actual expected
  | .greaterThan => order? actual expected == some .gt
  | .lessThan => order? actual expected == some .lt
  | .contains => contains actual expected
  | .isIn => isAmong actual expected
  | .isEmpty => isEmpty actual
  | .isNotEmpty => !isEmpty actual
  | .unknown _ => false

end Comparison

/-! ## Evaluation -/

namespace Condition

mutual

/-- Whether a condition holds of variables. -/
def holds (vars : Variables) : Condition → Bool
  | leaf name operator value => Comparison.holds (vars.get? name) operator value
  | all parts => allHold vars parts
  | any parts => anyHold vars parts
  | not part => !holds vars part

/-- Whether every part holds. -/
def allHold (vars : Variables) : List Condition → Bool
  | [] => true
  | part :: rest => holds vars part && allHold vars rest

/-- Whether some part holds. -/
def anyHold (vars : Variables) : List Condition → Bool
  | [] => false
  | part :: rest => holds vars part || anyHold vars rest

end

end Condition

end Onboarding
