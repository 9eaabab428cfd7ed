import ProblemIntake.Canonical.Item
import ProblemIntake.Context
import ProblemIntake.Failure

/-! A stream takes the items of one input, one after the other, and tells in the end whether the
input is accepted. -/

namespace ProblemIntake

structure Stream where
  language : Language
  pool : Pool
  context : Context
  statements : Array (Statement Pooled)

/-- An accepted input: a statement for each item, the warnings, and the headers still in force. -/
structure Accepted where
  statements : Array (Statement Pooled)
  diagnostics : List Diagnostic
  headers : Record

namespace Stream

def start (config : Config) (pool : Pool) : Except Failure Stream :=
  match config.language with
  | none => .error .noLanguage
  | some language =>
    .ok {
      language, pool
      context := (Context.new config).tell [.started config.inputFile language]
      statements := #[]
    }

/-- The canonical form of the next item, and the stream that has taken it. -/
def feed (s : Stream) (item : Item Pooled) : Statement Pooled × Stream :=
  let (canonical, pool) := item.canonical s.language s.pool
  (canonical.statement, {
    s with
    pool
    context := (s.context.receive item.loc canonical).examine canonical.statement
    statements := s.statements.push canonical.statement
  })

/-- Ends the stream. -/
def close (s : Stream) : Stream :=
  let context := s.context.conclude
  let finished := Event.finished context.config.inputFile s.statements.size context.errors
    context.warnings
  { s with context := context.tell [finished] }

/-- An input is accepted unless an error was reported. -/
def verdict (s : Stream) : Except Failure Accepted :=
  if s.context.hasErrors then .error (.rejected s.context.diagnostics)
  else .ok ⟨s.statements, s.context.diagnostics, s.context.headers⟩

/-- What is left of a run: its result, the pool with the terms it made, and its journal. -/
structure Outcome where
  result : Except Failure Accepted
  pool : Pool
  journal : Array Event

/-- Runs a whole input through a stream. -/
def run (config : Config) (items : List (Item Pooled)) (pool : Pool) : Outcome :=
  match start config pool with
  | .error failure => ⟨.error failure, pool, #[]⟩
  | .ok s =>
    let closed := (items.foldl (fun s item => (s.feed item).2) s).close
    ⟨closed.verdict, closed.pool, closed.context.journal⟩

end Stream

end ProblemIntake
