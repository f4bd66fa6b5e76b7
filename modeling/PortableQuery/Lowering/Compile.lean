import PortableQuery.Lowering.Dialect

/-!
# Compiling queries

One walk over the condition serves every dialect. It visits the predicates from left to right,
checks the shape of each, converts its values and binds them. What cannot be expressed is refused
before the walk starts.
-/

namespace PortableQuery

namespace Dialect

variable {m : Type → Type} [Monad m] [MonadExceptOf QueryError m] {F N : Type}

/-! ## Predicates -/

/-- The converted operand of a predicate: a range has two bounds, a choice at least one scalar, a
pattern is a text. -/
def operand (d : Dialect m F N) (scope : Scope) (o : Operator) (v : Value) : m (Operand N) :=
  match o with
  | .between =>
    match v.items? with
    | some [lower, upper] => do
      let lower ← d.toNative scope lower
      let upper ← d.toNative scope upper
      pure (.range lower upper)
    | _ => throw (.invalid (.betweenShape scope.field))
  | .oneOf =>
    match v.items? with
    | none => throw (.invalid (.oneOfShape scope.field))
    | some [] => throw (.invalid (.oneOfEmpty scope.field))
    | some (item :: items) =>
      if (item :: items).all Value.isScalar then do
        let values ← (item :: items).mapM (d.toNative scope)
        pure (.many values)
      else throw (.invalid (.oneOfNested scope.field))
  | .like =>
    match v.string? with
    | some _ => do
      let value ← d.toNative scope v
      pure (.single value)
    | none => throw (.invalid (.likeShape scope.field))
  | _ => do
    let value ← d.toNative scope v
    pure (.single value)

/-- The predicate that compares an element of `entity` by `o`. -/
def predicate (d : Dialect m F N) (config : CompilerConfig) (entity : String) (o : Operator)
    (e : Element) : m (Predicate N) :=
  if e.name.isEmpty then throw (.invalid (.emptyField o))
  else do
    let operand ← d.operand ⟨entity, e.name⟩ o e.value
    pure ⟨o, e.name, d.field config e.name, operand⟩

/-! ## The walk -/

mutual

/-- Lower a condition on `entity`, binding its values behind those that are bound. -/
def lowerCondition (d : Dialect m F N) (config : CompilerConfig) (entity : String) :
    Condition → Binder N → m (F × Binder N)
  | .predicate o e, b => do
    let p ← d.predicate config entity o e
    MonadExcept.ofExcept (d.lower p b)
  | .join connective children, b => do
    if children.isEmpty then throw (.invalid (.emptyJoin connective))
    let (parts, b) ← lowerAll d config entity children b
    let f ← MonadExcept.ofExcept (d.join connective parts)
    pure (f, b)
  | .not child, b => do
    let (f, b) ← lowerCondition d config entity child b
    let f ← MonadExcept.ofExcept (d.negate f)
    pure (f, b)
termination_by structural c => c

/-- Lower conditions one after the other. -/
def lowerAll (d : Dialect m F N) (config : CompilerConfig) (entity : String) :
    List Condition → Binder N → m (List F × Binder N)
  | [], b => pure ([], b)
  | c :: cs, b => do
    let (f, b) ← lowerCondition d config entity c b
    let (fs, b) ← lowerAll d config entity cs b
    pure (f :: fs, b)
termination_by structural cs => cs

end

/-- Lower what is left of a conjunction: nothing, the one condition, or the conjunction. -/
def lowerRest (d : Dialect m F N) (config : CompilerConfig) (entity : String)
    (rest : List Condition) (b : Binder N) : m (Option F × Binder N) :=
  match rest with
  | [] => pure (none, b)
  | [c] => do
    let (f, b) ← d.lowerCondition config entity c b
    pure (some f, b)
  | cs => do
    let (parts, b) ← d.lowerAll config entity cs b
    let f ← MonadExcept.ofExcept (d.join .and parts)
    pure (some f, b)

end Dialect

/-! ## Key lookups -/

/-- A predicate on the identity, and the conditions that hold beside it. -/
structure KeySplit where
  key : Condition
  rest : List Condition

/-- The condition names the identities it wants. -/
def Condition.isKey (idField : String) : Condition → Bool
  | .predicate .equals e => e.name == idField
  | .predicate .oneOf e => e.name == idField
  | _ => false

/-- The predicate that becomes a key lookup, and its siblings: the root itself, or the first such
child of a root conjunction. -/
def splitKey? (idField : String) (c : Condition) : Option KeySplit :=
  if c.isKey idField then some ⟨c, []⟩
  else
    match c with
    | .join .and children =>
      (children.find? (·.isKey idField)).map fun key =>
        ⟨key, children.eraseP (·.isKey idField)⟩
    | _ => none

/-- The value is null, or a list that holds null. -/
def Value.holdsNull (v : Value) : Bool :=
  v.isNull || (v.items?.map fun items => items.any Value.isNull).getD false

namespace Dialect

variable {m : Type → Type} [Monad m] [MonadExceptOf QueryError m] {F N : Type}

/-- The keys that a predicate on the identity names. -/
def keys (d : Dialect m F N) (config : CompilerConfig) (entity : String) :
    Condition → m (List N)
  | .predicate o e => do
    if e.value.holdsNull then throw (.invalid (.nullKey o e.name))
    let p ← d.predicate config entity o e
    match p.operand with
    | .single value => pure [value]
    | .many values => pure values
    | .range _ _ => throw (.invalid .keyRange)
  | _ => throw (.invalid .keyShape)

/-! ## Whole queries -/

/-- The predicate that this dialect turns into a key lookup, if it does so. -/
def keySplit? (d : Dialect m F N) (config : CompilerConfig) (c : Condition) : Option KeySplit :=
  if d.capabilities.pointLookup && config.pointLookup then splitKey? config.idField c else none

/-- Lower the condition of a query, its keys before everything else. -/
def lowerRoot (d : Dialect m F N) (config : CompilerConfig) (entity : String) (c : Condition) :
    m (Lowered F N) :=
  let start : Binder N := { style := d.style }
  match d.keySplit? config c with
  | some split => do
    let keys ← d.keys config entity split.key
    let (filter, b) ← d.lowerRest config entity split.rest start
    pure ⟨filter, b.parameters, keys⟩
  | none => do
    let (filter, b) ← d.lowerCondition config entity c start
    pure ⟨some filter, b.parameters, []⟩

/-- The feature of a query that the dialect's way of paging excludes. -/
def badPaging (d : Dialect m F N) (q : Query) : Option String :=
  match d.capabilities.paging with
  | .cursor => if 0 < q.skip then some "skip" else none
  | .offset => if q.cursor.isSome then some "cursor" else none

/-- **The statement of a query.** -/
def compile (d : Dialect m F N) (config : CompilerConfig) (q : Query) : m (Statement F N) := do
  if let some operation := d.badPaging q then throw (.unsupported d.name operation)
  let lowered ←
    match q.condition with
    | some c => do
      MonadExcept.ofExcept (d.capabilities.check d.name c)
      d.lowerRoot config q.entity c
    | none => pure .empty
  MonadExcept.ofExcept (d.assemble config q lowered)

end Dialect

end PortableQuery
