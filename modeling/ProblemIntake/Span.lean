namespace ProblemIntake

/-- Lines and columns count from one. -/
structure Position where
  line : Nat
  column : Nat
  deriving DecidableEq, Hashable, Repr

/-- A region of one file, both ends included. -/
structure Span where
  first : Position
  last : Position
  deriving DecidableEq, Hashable, Repr

/-- Only the start of a span is shown. -/
def Span.text (span : Span) : String :=
  s!"{span.first.line}:{span.first.column}"

structure Location where
  file : String
  span : Option Span
  deriving DecidableEq, Repr

def Location.text (place : Location) : String :=
  match place.span with
  | some span => place.file ++ ":" ++ span.text
  | none => place.file

end ProblemIntake
