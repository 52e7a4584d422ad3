import MathShorthand.Operator.Table
import MathShorthand.Pattern.Match
import MathShorthand.Pattern.Reader

/-!
# The standard operators

What can be typed on any keyboard. Words come first and are no operators inside a name, everything
else ends a name. `**` stands before `*`, which would win otherwise.
-/

namespace MathShorthand

instance : Regex Pattern where
  read? := Pattern.read?
  find? := Pattern.find?

theorem Regex.read?_pattern (text : List Char) :
    Regex.read? text = Pattern.read? text := rfl

theorem Regex.find?_pattern (p : Pattern) (text : List Char) :
    Regex.find? p text = p.find? text := rfl

namespace OperatorTable

/-- The standard operators as patterns. -/
def standardPatterns : List (String × Kind × Bool) :=
  [("(?i-u:int)", .integral, false),
   ("(?i-u:sum)", .sum, false),
   ("(?i-u:production|prod)", .product, false),
   ("(?i-u:to)", .upTo, false),
   ("(?i-u:of)", .ofBody, false),
   ("\\(", .leftParen, true),
   ("\\)", .rightParen, true),
   ("=", .equal, true),
   (">=", .geq, true),
   ("<=", .leq, true),
   ("!=", .neq, true),
   ("~=", .approx, true),
   ("\\+", .plus, true),
   ("-", .minus, true),
   ("\\*\\*", .looseTimes, true),
   ("\\*", .times, true),
   ("/", .divide, true),
   ("\\\\", .escape, true),
   (",", .comma, true),
   ("\\s", .blank, true),
   ("\\^", .super, true),
   ("_", .sub, true),
   ("@", .hat, true),
   ("#", .vector, true)]

/-- The standard operators, each of which is a pattern. -/
def standard : OperatorTable Pattern := (ofPatterns? standardPatterns).get (by decide)

end OperatorTable

end MathShorthand
