import LoxLang.Value.Fault

/-!
# Operators on values

What the unary and binary operators do once their operands are known. The kind
of the operator token decides; a kind that is no such operator is a fault.
-/

namespace LoxLang

namespace Value

variable {σ : Type}

/-- A unary operator applied. -/
def unary (operator : Token.Kind) (v : Value σ) : Except Fault (Value σ) :=
  match operator, v with
  | .symbol .minus, .number x => .ok (.number (-x))
  | .symbol .minus, _ => .error .negatedNonNumber
  | .symbol .bang, v => .ok (.bool (!v.truthy))
  | _, _ => .error .unknownUnary

/-- A function of two numbers applied to values. -/
def numeric (f : Float → Float → Value σ) : Value σ → Value σ → Except Fault (Value σ)
  | .number x, .number y => .ok (f x y)
  | _, _ => .error .operandsNotNumbers

/-- The sum of two numbers, or two strings joined. -/
def add : Value σ → Value σ → Except Fault (Value σ)
  | .number x, .number y => .ok (.number (x + y))
  | .string s, .string t => .ok (.string (s ++ t))
  | _, _ => .error .addition

/-- A binary operator applied. -/
def binary (operator : Token.Kind) (v w : Value σ) : Except Fault (Value σ) :=
  match operator with
  | .symbol .plus => add v w
  | .symbol .minus => numeric (fun x y => .number (x - y)) v w
  | .symbol .star => numeric (fun x y => .number (x * y)) v w
  | .symbol .slash => numeric (fun x y => .number (x / y)) v w
  | .symbol .greater => numeric (fun x y => .bool (decide (y < x))) v w
  | .symbol .greaterEqual => numeric (fun x y => .bool (decide (y ≤ x))) v w
  | .symbol .less => numeric (fun x y => .bool (decide (x < y))) v w
  | .symbol .lessEqual => numeric (fun x y => .bool (decide (x ≤ y))) v w
  | .symbol .equalEqual => .ok (.bool (v.same w))
  | .symbol .bangEqual => .ok (.bool (!v.same w))
  | _ => .error .unknownBinary

/-- Does the left operand of a logical operator decide the result? `or` stops at a true operand,
`and` at a false one. -/
def shortCircuits (operator : Token) (v : Value σ) : Bool :=
  if operator.isSymbol .orWord then v.truthy else !v.truthy

end Value

end LoxLang
