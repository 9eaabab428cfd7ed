import ProblemIntake.Spelling

/-! Names live in namespaces. A literal is a symbol too: its namespace is its kind and its name is
the text as written, without quotes. -/

namespace ProblemIntake

/-- Constants known to every language. `wildcard` leaves a term open. -/
inductive Builtin where
  | top
  | bottom
  | wildcard
  | type
  | prop
  deriving DecidableEq, Hashable, Repr

namespace Builtin

instance : Spelled Builtin where
  all := [.top, .bottom, .wildcard, .type, .prop]
  spelling
    | .top => "true"
    | .bottom => "false"
    | .wildcard => "_"
    | .type => "Type"
    | .prop => "Prop"
  mem_all b := by cases b <;> decide
  nodup_spellings := by decide

def ofBool : Bool → Builtin
  | true => .top
  | false => .bottom

end Builtin

inductive Connective where
  | not
  | and
  | or
  | xor
  | implies
  | iff
  | equals
  deriving DecidableEq, Hashable, Repr

instance : Spelled Connective where
  all := [.not, .and, .or, .xor, .implies, .iff, .equals]
  spelling
    | .not => "not"
    | .and => "and"
    | .or => "or"
    | .xor => "xor"
    | .implies => "=>"
    | .iff => "<=>"
    | .equals => "="
  mem_all c := by cases c <;> decide
  nodup_spellings := by decide

/-- What binds variables. A product is a dependent function type. -/
inductive Binder where
  | universal
  | existential
  | lambda
  | product
  deriving DecidableEq, Hashable, Repr

instance : Spelled Binder where
  all := [.universal, .existential, .lambda, .product]
  spelling
    | .universal => "forall"
    | .existential => "exists"
    | .lambda => "lambda"
    | .product => "pi"
  mem_all b := by cases b <;> decide
  nodup_spellings := by decide

/-- The kinds of literal. -/
inductive Literal where
  | integer
  | decimal
  | hexadecimal
  | binary
  | rational
  | string
  | bitvector
  deriving DecidableEq, Hashable, Repr

/-- Attribute names are keywords, such as `:status`, or free words given as their values. -/
inductive Namespace where
  | term
  | sort
  | attr
  | literal (kind : Literal)
  deriving DecidableEq, Hashable, Repr

structure Symbol where
  name : String
  space : Namespace
  deriving DecidableEq, Hashable, Repr

namespace Symbol

def term (name : String) : Symbol := ⟨name, .term⟩

def attr (name : String) : Symbol := ⟨name, .attr⟩

/-- The characters of names that need no bars. -/
def isPlain (c : Char) : Bool :=
  c.isAlphanum || "+-/*=%?!.$_~&^<>@".toList.contains c

/-- A nonempty name of plain characters that does not start like a numeral. -/
def isSimple : List Char → Bool
  | [] => false
  | c :: cs => !c.isDigit && (c :: cs).all isPlain

/-- A name between bars, unless it is simple. A bar inside is kept. -/
def barred (name : String) : String :=
  if isSimple name.toList then name else "|" ++ name ++ "|"

/-- A text with each of its quotes written twice. -/
def doubled (text : List Char) : List Char :=
  text.flatMap fun c => if c = '"' then ['"', '"'] else [c]

/-- A text between quotes, each quote inside written twice. -/
def quoted (text : String) : String :=
  "\"" ++ String.ofList (doubled text.toList) ++ "\""

/-- Literals other than strings, and keywords, are printed as they are. -/
def token (s : Symbol) : String :=
  match s.space with
  | .literal .string => quoted s.name
  | .literal _ => s.name
  | .attr => if s.name.toList.head? = some ':' then s.name else barred s.name
  | .term | .sort => barred s.name

end Symbol

end ProblemIntake
