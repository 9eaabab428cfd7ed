import ProblemIntake.Header.Check

namespace ProblemIntake

structure Context where
  config : Config
  headers : Record
  journal : Array Event

namespace Context

def new (config : Config) : Context := ⟨config, .empty, #[]⟩

def tell (ctx : Context) (events : List Event) : Context :=
  { ctx with journal := ctx.journal ++ events }

/-- Adds a diagnostic. -/
def report (ctx : Context) (severity : Severity) (loc : Option Span) (cause : Cause) : Context :=
  ctx.tell [ctx.config.diagnosis severity loc cause]

/-- Reports the warning of an item at `loc` that was refused. -/
def receive (ctx : Context) (loc : Option Span) (canonical : Canonical) : Context :=
  match canonical.warning with
  | some warning => ctx.report .warning loc (.item warning)
  | none => ctx

/-- A span with the name of the input file. -/
def locate (ctx : Context) (span : Option Span) : Location := ⟨ctx.config.inputFile, span⟩

def diagnostics (ctx : Context) : List Diagnostic := diagnosticsOf ctx.journal.toList

def errors (ctx : Context) : Nat := ctx.diagnostics.countP Diagnostic.isError

/-- Whatever is no error is a warning. -/
def warnings (ctx : Context) : Nat := ctx.diagnostics.length - ctx.errors

def hasErrors (ctx : Context) : Bool := ctx.diagnostics.any Diagnostic.isError

/-- Checks one step. -/
def check (ctx : Context) (step : Step Pooled) : Context :=
  let (headers, events) := ctx.headers.check ctx.config step
  { ctx.tell events with headers }

/-- Checks the steps of a statement as they come in its packs. -/
def checkAll (s : Statement Pooled) : Context → Context :=
  s.fold (fun step ctx => ctx.check step) fun items _ ctx =>
    items.foldl (fun ctx item => item ctx) ctx

@[simp] theorem checkAll_step (step : Step Pooled) (ctx : Context) :
    checkAll (.step step) ctx = ctx.check step := rfl

@[simp] theorem checkAll_pack (items : List (Statement Pooled)) (label : Label Pooled)
    (ctx : Context) :
    checkAll (.pack items label) ctx = items.foldl (fun ctx item => checkAll item ctx) ctx := by
  simp only [checkAll, Statement.fold_pack, List.foldl_map]

/-- Checks a statement, if headers are checked at all. -/
def examine (ctx : Context) (s : Statement Pooled) : Context :=
  if ctx.config.checkHeaders then checkAll s ctx else ctx

/-- Reports the fields that were never declared, if headers are checked at all. -/
def conclude (ctx : Context) : Context :=
  if ctx.config.checkHeaders then ctx.tell (ctx.headers.review ctx.config) else ctx

end Context

end ProblemIntake
