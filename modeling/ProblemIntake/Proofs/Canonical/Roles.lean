import Mathlib.Data.List.Forall2
import Mathlib.Data.List.Induction
import ProblemIntake.Proofs.Canonical.Annotated
import ProblemIntake.Proofs.Statement.AssertionStack
import ProblemIntake.Proofs.Stream.Forms

/-!
# Roles on the assertion stack

The steps of a TPTP input, run on an assertion stack:

* `Item.run_expands`: an item leaves what it keeps in the base level, and no other level;
* `Item.along_expands`: inside an item no scope is closed that it did not open, and a solver sees
  the base and the formula it is asked about.
-/

namespace ProblemIntake

open AssertionStack

namespace Item

/-- What an item leaves assumed for good. -/
inductive Keeps (item : Item Pooled) : List Pooled → Prop
  | formula {t : Pooled} (args : item.args = [t])
      (role : item.keyword ∈ assumedRoles ++ provedRoles) : Keeps item [t]
  | negation {t u : Pooled} (args : item.args = [t]) (role : item.keyword = refutedRole)
      (negates : Negates u t) : Keeps item [u]
  | nothing (idle : ∀ t, item.args = [t] → ¬ Asserts item.keyword) : Keeps item []

/-- What items leave assumed, in order. -/
def Kept (items : List (Item Pooled)) (base : List Pooled) : Prop :=
  ∃ parts, List.Forall₂ Keeps items parts ∧ parts.flatten = base

/-- The stack on which a solver is asked about the item, when `base` was assumed before. -/
inductive Tries (item : Item Pooled) (base : List Pooled) : AssertionStack → Prop
  | proving {t : Pooled} (args : item.args = [t]) (role : item.keyword ∈ provedRoles) :
      Tries item base [⟨[], [t]⟩, ⟨base, []⟩]
  | refuting {t : Pooled} (args : item.args = [t]) (role : item.keyword = refutedRole) :
      Tries item base [⟨[t], []⟩, ⟨base, []⟩]

theorem kept_nil : Kept [] [] := ⟨[], .nil, rfl⟩

theorem Kept.concat {items : List (Item Pooled)} {item : Item Pooled} {base kept : List Pooled}
    (earlier : Kept items base) (now : item.Keeps kept) :
    Kept (items ++ [item]) (base ++ kept) := by
  obtain ⟨parts, keeps, rfl⟩ := earlier
  refine ⟨parts ++ [kept], List.rel_append keeps (.cons now .nil), ?_⟩
  rw [List.flatten_append, List.flatten_singleton]

variable {item : Item Pooled} {actions : List (Action Pooled)}

theorem run_expands (expands : item.Expands actions) (base : List Pooled) :
    ∃ kept, item.Keeps kept ∧ run [⟨base, []⟩] actions = [⟨base ++ kept, []⟩] := by
  cases expands with
  | assumed args role => exact ⟨_, .formula args (List.mem_append_left _ role), rfl⟩
  | proved args role => exact ⟨_, .formula args (List.mem_append_right _ role), rfl⟩
  | refuted args role negates => exact ⟨_, .negation args role negates, rfl⟩
  | nothing idle | declared idle | included idle =>
    exact ⟨[], .nothing idle, by rw [List.append_nil]; rfl⟩

/-- What an action of the item may be, given the stack it meets. -/
def Admits (item : Item Pooled) (base : List Pooled) (stack : AssertionStack) :
    Action Pooled → Prop
  | .pop count => count < stack.length
  | .prove assumptions => assumptions = [] ∧ item.Tries base stack
  | _ => True

theorem along_expands (expands : item.Expands actions) (base : List Pooled) :
    Along (item.Admits base) [⟨base, []⟩] actions := by
  cases expands with
  | assumed => exact ⟨trivial, trivial⟩
  | proved args role =>
    exact ⟨trivial, trivial, ⟨rfl, .proving args role⟩, Nat.one_lt_two, trivial, trivial⟩
  | refuted args role =>
    exact ⟨trivial, trivial, ⟨rfl, .refuting args role⟩, Nat.one_lt_two, trivial, trivial⟩
  | nothing => trivial
  | declared | included => exact ⟨trivial, trivial⟩

/-- What the steps of an input do, in order. -/
def tptpActions (items : List (Item Pooled)) (pool : Pool) : List (Action Pooled) :=
  (Stream.flatSteps .tptp items pool).map Step.action

/-- The last item adds what it stands for. -/
theorem tptpActions_concat (items : List (Item Pooled)) (item : Item Pooled) (pool : Pool) :
    ∃ actions, item.Expands actions ∧
      tptpActions (items ++ [item]) pool = tptpActions items pool ++ actions := by
  refine ⟨_, item.expands_canonical (Stream.forms .tptp items pool).2, ?_⟩
  rw [tptpActions, Stream.flatSteps_append, List.map_append, Stream.flatSteps_cons,
    Stream.flatSteps_nil, List.append_nil]
  rfl

theorem run_tptpActions (items : List (Item Pooled)) (pool : Pool) :
    ∃ base, Kept items base ∧ run [{}] (tptpActions items pool) = [⟨base, []⟩] := by
  induction items using List.reverseRecOn with
  | nil => exact ⟨[], kept_nil, rfl⟩
  | append_singleton items item ih =>
    obtain ⟨base, kept, left⟩ := ih
    obtain ⟨actions, expands, added⟩ := tptpActions_concat items item pool
    obtain ⟨more, keeps, leaves⟩ := run_expands expands base
    refine ⟨base ++ more, kept.concat keeps, ?_⟩
    rw [added, run_append, left, leaves]

/-- The action that comes after `begun` belongs to an item of the input, which admits it on top of
what the items before it left. -/
def Placed (items : List (Item Pooled)) (pool : Pool) (begun : List (Action Pooled))
    (a : Action Pooled) : Prop :=
  ∃ earlier item base, earlier ++ [item] <+: items ∧
    tptpActions earlier pool <+: begun ∧
    begun ++ [a] <+: tptpActions (earlier ++ [item]) pool ∧
    run [{}] (tptpActions earlier pool) = [⟨base, []⟩] ∧
    item.Admits base (run [{}] begun) a

theorem placed (items : List (Item Pooled)) (pool : Pool) (begun : List (Action Pooled))
    (a : Action Pooled) (here : begun ++ [a] <+: tptpActions items pool) :
    Placed items pool begun a := by
  induction items using List.reverseRecOn with
  | nil =>
    have short := here.length_le
    simp [tptpActions] at short
  | append_singleton items item ih =>
    by_cases before : begun ++ [a] <+: tptpActions items pool
    · obtain ⟨earlier, item', base, among, rest⟩ := ih before
      exact ⟨earlier, item', base, among.trans (List.prefix_append _ _), rest⟩
    · obtain ⟨actions, expands, added⟩ := tptpActions_concat items item pool
      obtain ⟨base, _, left⟩ := run_tptpActions items pool
      have earlier : tptpActions items pool <+: begun := by
        have shorter := List.prefix_or_prefix_of_prefix (added ▸ List.prefix_append _ actions) here
        rcases List.prefix_concat_iff.mp (shorter.resolve_right before) with same | earlier
        · exact absurd (same ▸ List.prefix_rfl) before
        · exact earlier
      obtain ⟨now, rfl⟩ := earlier
      obtain ⟨more, split⟩ := here
      have mine : actions = now ++ a :: more := by
        rw [added] at split
        simpa using split.symm
      have admits := along_iff.mp (along_expands expands base) now a more mine
      refine ⟨items, item, base, List.prefix_rfl, ⟨now, rfl⟩, ⟨more, split⟩, left, ?_⟩
      rwa [run_append, left]

/-- **A TPTP input means what its roles say.** Its steps are run on a stack with an empty base.
After every item only the base is left, with what the items so far keep, in order. No pop discards
the base. Every solve request comes from an item, has no assumptions of its own, and is put with
one scope open on top of what the earlier items left: with the goal of the item in it, or with the
formula to be refuted and no goal. -/
theorem stack_follows_roles (items : List (Item Pooled)) (pool : Pool) :
    (∀ seen, seen <+: items →
      ∃ base, Kept seen base ∧ run [{}] (tptpActions seen pool) = [⟨base, []⟩]) ∧
    (∀ begun count, begun ++ [.pop count] <+: tptpActions items pool →
      count < (run [{}] begun).length) ∧
    ∀ begun assumptions, begun ++ [.prove assumptions] <+: tptpActions items pool →
      assumptions = [] ∧ ∃ earlier item base, earlier ++ [item] <+: items ∧
        tptpActions earlier pool <+: begun ∧
        begun ++ [.prove assumptions] <+: tptpActions (earlier ++ [item]) pool ∧
        run [{}] (tptpActions earlier pool) = [⟨base, []⟩] ∧
        item.Tries base (run [{}] begun) := by
  refine ⟨fun seen _ => run_tptpActions seen pool, ?_, ?_⟩
  · intro begun count here
    obtain ⟨_, _, _, _, _, _, _, admits⟩ := placed items pool begun _ here
    exact admits
  · intro begun assumptions here
    obtain ⟨earlier, item, base, among, before, within, left, none, tries⟩ :=
      placed items pool begun _ here
    exact ⟨none, earlier, item, base, among, before, within, left, tries⟩

end Item

end ProblemIntake
