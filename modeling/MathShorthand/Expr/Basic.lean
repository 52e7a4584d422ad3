import MathShorthand.Token.Basic

/-!
# Expressions

The tree that a sequence of tokens stands for. Brackets leave no trace in it.
-/

namespace MathShorthand

/-- A formula. Operators are the kinds of the tokens that wrote them. -/
inductive Expr where
  /-- A name, a number or any other text that stands for itself. -/
  | name (text : String)
  /-- An operator before its operand, such as a sign. -/
  | prefixed (op : Kind) (operand : Expr)
  /-- An operator after its operand, such as a hat. -/
  | postfixed (op : Kind) (operand : Expr)
  /-- An operator between two operands. -/
  | binary (op : Kind) (left right : Expr)
  /-- A sum, a product or an integral over `bounds`, in the order they were written. -/
  | bounded (op : Kind) (bounds : List Expr) (body : Expr)

end MathShorthand
