import QueryPlan.Plan.Basic

/-!
# A supply of rounds

A loop over a plan may need as many rounds as the plan has nodes and names when every shared node is
written out wherever it is read.  That number can be exponential in the size of the plan, while the
loop itself stops early.  `Rounds` is such a number, worked out one round at a time and only as far
as it is used; `Rounds.count` says which number it is.

* `Rounds.andThen` adds, and `Rounds.forEach` multiplies (`count_andThen`, `count_forEach`).
* `Node.rounds` supplies a round for every node of a plan and for every name in its statements.  No
  two rounds are far apart, because every node supplies one.
-/

namespace QueryPlan

/-- A number of rounds, worked out one round at a time. -/
inductive Rounds where
  | over
  | next (rest : Unit → Rounds)

namespace Rounds

/-- How many rounds there are. -/
def count : Rounds → Nat
  | .over => 0
  | .next rest => (rest ()).count + 1

/-- The given number of rounds, and then others. -/
def atLeast : Nat → (Unit → Rounds) → Rounds
  | 0, rest => rest ()
  | n + 1, rest => .next fun _ => atLeast n rest

/-- Rounds, and then others. -/
def andThen : Rounds → (Unit → Rounds) → Rounds
  | .over, others => others ()
  | .next rest, others => .next fun _ => (rest ()).andThen others

/-- For each round, that round and then others. -/
def forEach : Rounds → (Unit → Rounds) → Rounds
  | .over, _ => .over
  | .next rest, others => .next fun _ => (others ()).andThen fun _ => (rest ()).forEach others

@[simp] theorem count_atLeast (rest : Unit → Rounds) :
    ∀ n : Nat, (atLeast n rest).count = n + (rest ()).count
  | 0 => by rw [atLeast, Nat.zero_add]
  | n + 1 => by
      have ih := count_atLeast rest n
      simp only [atLeast, count]
      omega

@[simp] theorem count_andThen (others : Unit → Rounds) :
    ∀ r : Rounds, (r.andThen others).count = r.count + (others ()).count
  | .over => by rw [andThen, count, Nat.zero_add]
  | .next rest => by
      have ih := count_andThen others (rest ())
      simp only [andThen, count]
      omega

@[simp] theorem count_forEach (others : Unit → Rounds) :
    ∀ r : Rounds, (r.forEach others).count = r.count * ((others ()).count + 1)
  | .over => by simp only [forEach, count, Nat.zero_mul]
  | .next rest => by
      have ih := count_forEach others (rest ())
      simp only [forEach, count, count_andThen, ih, Nat.add_mul, Nat.one_mul]
      omega

end Rounds

/-- The names that occur in a statement: those it puts out and those it reads. -/
def Select.ownNames {σ : Type} (s : Select σ) : List String :=
  let lineage := Expr.lineages s.exprs
  s.columnNames ++ s.groupNames ++ lineage.columns.map ColumnRef.column ++ lineage.names ++
    lineage.declaredInputs

namespace Node

mutual
/-- A round for every node of a plan and for every name in its statements, and then others. -/
def rounds : Node → (Unit → Rounds) → Rounds
  | .table .., others | .text .., others => .next others
  | .select s, others => .next fun _ => .atLeast s.ownNames.length fun _ =>
      s.source.rounds fun _ => roundsOfJoins s.joins fun _ => roundsOfCtes s.ctes others
  | .cte c, others => .next fun _ => c.body.rounds others
  | .createTable _ _ query, others => .next fun _ => query.rounds others

/-- `rounds` for the sources of joins. -/
def roundsOfJoins : List (Join Node) → (Unit → Rounds) → Rounds
  | [], others => others ()
  | j :: js, others => j.source.rounds fun _ => roundsOfJoins js others

/-- `rounds` for CTEs. -/
def roundsOfCtes : List (Cte Node) → (Unit → Rounds) → Rounds
  | [], others => others ()
  | c :: cs, others => .next fun _ => c.body.rounds fun _ => roundsOfCtes cs others
end

end Node

end QueryPlan
