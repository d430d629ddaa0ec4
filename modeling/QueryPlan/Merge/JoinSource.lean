import QueryPlan.Merge.Basic

/-!
# Merging the sources of a join

`Select.joinSources?` replaces every source of a statement with joins that is a plain projection of
one relation by that relation.  An outer join can fill a source's columns with `NULL`; such a source
is replaced only if all its columns are references, since any other expression might not be `NULL`
there.
-/

namespace QueryPlan

namespace Select

variable {σ : Type}

/-- Whether a statement only computes columns from the rows of one relation. -/
def isPlainProjection (s : Select σ) : Bool :=
  s.joins.isEmpty && s.filter.isNone && s.groupBy.isEmpty && s.orderBy.isEmpty && s.limit.isNone &&
    !s.distinct && s.ctes.isEmpty && !s.outputLineage.aggregate && !s.outputLineage.window &&
    s.outputLineage.raws.isEmpty && s.outputLineage.names.isEmpty

/-- Whether a join can fill the columns of the source at a place with `NULL`. -/
def nullFilled (s : Select σ) (place : Nat) : Bool :=
  match place with
  | 0 => s.joins.any fun j => j.kind == .fullOuter
  | i + 1 =>
    match s.joins[i]? with
    | some j => j.kind == .leftOuter || j.kind == .fullOuter
    | none => false

/-- Whether another source than the one at a place has a name. -/
def namedElsewhere (s : Select σ) (place : Nat) (name : String) : Bool :=
  (s.sourceNames.eraseIdx place).contains name

/-- Whether the child at a place of a statement can be replaced by the relation it reads. -/
def allowsSourceAt (s : Select σ) (place : Nat) (sourceName : String) (child : Select σ) : Bool :=
  child.isPlainProjection &&
    (!s.nullFilled place || child.columns.all fun c => c.expr.columnRef?.isSome) &&
    !s.namedElsewhere place child.sourceName &&
    s.coveredBy sourceName (columnSubstitution sourceName child)

/-- A statement with a substitution carried out in all its expressions. -/
def substitute (s : Select σ) (subst : Substitution) : Select σ :=
  { s with
    columns := substituteColumns subst s.columns
    joins := s.joins.map fun j => { j with condition := j.condition.map (Expr.substitute subst) }
    groupBy := substituteColumns subst s.groupBy
    orderBy := s.orderBy.map fun k => { k with expr := k.expr.substitute subst }
    filter := s.filter.map (Expr.substitute subst) }

/-- A statement with another source at a place. -/
def setSource (s : Select σ) (place : Nat) (source : σ) (sourceName : String) : Select σ :=
  match place with
  | 0 => { s with source, sourceName }
  | i + 1 => { s with joins := s.joins.modify i fun j => { j with source, sourceName } }

end Select

/-- Replaces the source at a place by the relation that it projects, if that is allowed. -/
def Select.replaceSource? (s : Statement) (place : Nat) : Option Statement := do
  let (sourceName, source) ← s.sources[place]?
  let child ← source.select?
  if s.allowsSourceAt place sourceName child then
    return (s.substitute (Select.columnSubstitution sourceName child)).setSource
      place child.source child.sourceName
  else none

/-- Replaces sources at the given places, one after the other; nothing if none can be. -/
def Select.replaceSources? : List Nat → Statement → Option Statement
  | [], _ => none
  | place :: places, s =>
    match s.replaceSource? place with
    | some s => some ((Select.replaceSources? places s).getD s)
    | none => Select.replaceSources? places s

/-- Replaces every source of a statement that is a plain projection by the relation it reads. -/
def Select.joinSources? (s : Statement) : Option Statement :=
  if s.isTransparent then Select.replaceSources? (List.range (s.joins.length + 1)) s
  else none

end QueryPlan
