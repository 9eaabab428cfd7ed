import ProblemIntake.Header.Field
import ProblemIntake.Pool

/-! An attribute term declares a header if it applies a header keyword to one value of the right
form. A header keyword used in any other way is malformed, and every other term is no header. -/

namespace ProblemIntake

/-- What a malformed header lacks. -/
inductive Fault where
  | emptyValue (keyword : String)
  | expectedVersion
  | expectedSymbol
  | expectedString
  | expectedStatus
  deriving DecidableEq, Repr

def Fault.text : Fault → String
  | .emptyValue keyword => "empty value for " ++ keyword
  | .expectedVersion => "expected a version number"
  | .expectedSymbol => "expected a single symbol"
  | .expectedString => "expected a single string"
  | .expectedStatus => "expected sat|unsat|unknown"

namespace Field

/-- The value a term stands for in the field. A status may live in any namespace. -/
def value? (field : Field) (t : Pooled) : Option String :=
  match field with
  | .languageVersion | .problemVersion => t.literal? .decimal
  | .source => t.keyword?
  | .license | .category => t.literal? .string
  | .status => (t.symbol?.map Symbol.name).filter (["sat", "unsat", "unknown"].contains ·)

/-- What a value of the wrong form lacks. -/
def fault : Field → Fault
  | .languageVersion | .problemVersion => .expectedVersion
  | .source => .expectedSymbol
  | .license | .category => .expectedString
  | .status => .expectedStatus

/-- What a keyword without a value lacks. -/
def emptyFault (field : Field) (keyword : String) : Fault :=
  match field with
  | .status => field.fault
  | _ => .emptyValue keyword

/-- The field that the keyword declares. -/
def ofKeyword? (language : Option Language) (keyword : String) : Option Field :=
  Spelled.all.find? fun f : Field => f.keyword? language == some keyword

end Field

/-- What an attribute says about the headers. -/
inductive Reading where
  | declares (field : Field) (value : String)
  | malformed (loc : Option Span) (fault : Fault)
  | other
  deriving DecidableEq, Repr

namespace Reading

/-- A field's keyword applied to arguments. The fault is blamed on the first argument if its
place is known, and on the whole attribute otherwise. -/
def ofArguments (t : Pooled) (field : Field) (keyword : String) : List Pooled → Reading
  | [] => .malformed t.loc (field.emptyFault keyword)
  | [v] =>
    match field.value? v with
    | some value => .declares field value
    | none => .malformed (v.loc.or t.loc) field.fault
  | v :: _ => .malformed (v.loc.or t.loc) field.fault

/-- Reads an attribute in the given language. -/
def ofTerm (language : Option Language) (t : Pooled) : Reading :=
  match t.attribute? with
  | some (keyword, args) =>
    match Field.ofKeyword? language keyword with
    | some field => ofArguments t field keyword args
    | none => .other
  | none => .other

end Reading

end ProblemIntake
