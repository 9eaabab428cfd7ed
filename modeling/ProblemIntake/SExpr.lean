namespace ProblemIntake

inductive SExpr where
  | atom (token : String)
  | list (items : List SExpr)
  deriving Repr

namespace SExpr

mutual

/-- The characters of an expression, followed by `rest`. -/
def write : SExpr → List Char → List Char
  | .atom token, rest => token.toList ++ rest
  | .list [], rest => '(' :: ')' :: rest
  | .list (e :: es), rest => '(' :: e.write (writeTail es (')' :: rest))

/-- Each of the expressions with a blank before it, followed by `rest`. -/
def writeTail : List SExpr → List Char → List Char
  | [], rest => rest
  | e :: es, rest => ' ' :: e.write (writeTail es rest)

end

def text (e : SExpr) : String := String.ofList (e.write [])

end SExpr

end ProblemIntake
