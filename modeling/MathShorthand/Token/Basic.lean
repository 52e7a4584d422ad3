/-!
# Tokens

A token is a piece of shorthand text with the part it plays. `Kind.label` is the name that
messages give to a kind.
-/

namespace MathShorthand

/-- The part a token plays. -/
inductive Kind where
  | integral | sum | product
  | upTo | ofBody
  | leftParen | rightParen
  | equal | geq | leq | neq | approx
  | plus | minus | looseTimes | times | divide
  | escape | comma | blank
  | super | sub
  | hat | vector
  | name | eof
  deriving DecidableEq

namespace Kind

def all : List Kind :=
  [integral, sum, product, upTo, ofBody, leftParen, rightParen, equal, geq, leq, neq, approx,
    plus, minus, looseTimes, times, divide, escape, comma, blank, super, sub, hat, vector, name,
    eof]

theorem mem_all (k : Kind) : k ∈ all := by
  cases k <;> decide

def label : Kind → String
  | integral => "Integral"
  | sum => "Sum"
  | product => "Production"
  | upTo => "To"
  | ofBody => "Of"
  | leftParen => "LeftParen"
  | rightParen => "RightParen"
  | equal => "Equal"
  | geq => "Geq"
  | leq => "Leq"
  | neq => "Neq"
  | approx => "Approx"
  | plus => "Plus"
  | minus => "Minus"
  | looseTimes => "LpTimes"
  | times => "Times"
  | divide => "Divide"
  | escape => "Escape"
  | comma => "Comma"
  | blank => "Whitespace"
  | super => "Super"
  | sub => "Sub"
  | hat => "At"
  | vector => "Mesh"
  | name => "Name"
  | eof => "Eof"

def ofLabel? (text : String) : Option Kind :=
  all.find? fun k => k.label == text

theorem ofLabel?_label (k : Kind) : ofLabel? k.label = some k := by
  cases k <;> decide

end Kind

/-- A piece of text and the part it plays. -/
structure Token where
  kind : Kind
  text : String
  deriving DecidableEq

/-- What is seen when no token is left. -/
def Token.eof : Token := ⟨.eof, ""⟩

end MathShorthand
