import ProblemIntake.Canonical.Command
import ProblemIntake.Canonical.Directive
import ProblemIntake.Canonical.Formula
import ProblemIntake.Canonical.Line
import ProblemIntake.Language

namespace ProblemIntake

/-- The canonical form of an item of the language. -/
def Item.canonical (item : Item Pooled) : Language → StateM Pool Canonical
  | .smtlib => Canonical.ofCommand item
  | .tptp => Canonical.ofAnnotated item
  | .dimacs => Canonical.ofLine false item
  | .icnf => Canonical.ofLine true item
  | .zf => Canonical.ofDirective item

end ProblemIntake
