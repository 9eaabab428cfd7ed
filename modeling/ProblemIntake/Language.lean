import ProblemIntake.Path
import ProblemIntake.Spelling

namespace ProblemIntake

/-- A format for logic problems. Incremental CNF is CNF with assumption lines. -/
inductive Language where
  | smtlib
  | tptp
  | dimacs
  | icnf
  | zf
  deriving DecidableEq, Repr

namespace Language

instance : Spelled Language where
  all := [.smtlib, .tptp, .dimacs, .icnf, .zf]
  spelling
    | .smtlib => "smt2"
    | .tptp => "tptp"
    | .dimacs => "dimacs"
    | .icnf => "icnf"
    | .zf => "zf"
  mem_all l := by cases l <;> decide
  nodup_spellings := by decide

/-- The extensions in use, without the dot. -/
def extensions : Language → List String
  | .smtlib => ["smt2", "smt"]
  | .tptp => ["p", "ax", "tptp"]
  | .dimacs => ["cnf"]
  | .icnf => ["icnf"]
  | .zf => ["zf"]

/-- One dot in front of the extension is ignored. -/
def ofExtension? (extension : String) : Option Language :=
  let bare := match extension.toList with
    | '.' :: rest => String.ofList rest
    | _ => extension
  Spelled.all.find? fun l : Language => l.extensions.contains bare

/-- The language announced by the file's name. -/
def ofPath? (path : String) : Option Language :=
  (Path.extension? path).bind ofExtension?

end Language

end ProblemIntake
