import PortableQuery.Proofs.Lowering.Fault

set_option autoImplicit false

/-!
# Shapes of conditions

The walk checks the shape of a node when it comes to it, before a dialect gets to see what it holds.
So everything that is compiled has these shapes, and a dialect has something to write for every
predicate that reaches it.
-/

namespace PortableQuery

/-! ## Shapes -/

/-- What an operator compares with: a range has two bounds, a choice at least one scalar, a pattern
is a text, and anything else is compared with any value. -/
def Operator.Takes (v : Value) : Operator → Prop
  | .between => ∃ lower upper, v = .list [lower, upper]
  | .oneOf => ∃ items, v = .list items ∧ items ≠ [] ∧ ∀ x ∈ items, x.isScalar = true
  | .like => ∃ s, v = .text s
  | .equals | .greater | .greaterOrEqual | .less | .lessOrEqual => True

namespace Condition

/-- The node by itself has a shape that can be lowered. -/
def IsShaped : Condition → Prop
  | predicate o e => e.name ≠ "" ∧ o.Takes e.value
  | join _ cs => cs ≠ []
  | not _ => True

/-- Every node of the condition has such a shape. -/
def Shaped (c : Condition) : Prop := ∀ x ∈ c.preorder, x.IsShaped

theorem shaped_predicate {o : Operator} {e : Element} :
    (predicate o e).Shaped ↔ e.name ≠ "" ∧ o.Takes e.value := by
  rw [Shaped, preorder_predicate, List.forall_mem_singleton, IsShaped]

theorem shaped_join {connective : Connective} {cs : List Condition} :
    (join connective cs).Shaped ↔ cs ≠ [] ∧ ∀ c ∈ cs, c.Shaped := by
  rw [Shaped, preorder_join, List.forall_mem_cons, List.forall_mem_flatMap]
  rfl

theorem shaped_not {c : Condition} : (not c).Shaped ↔ c.Shaped := by
  rw [Shaped, preorder_not, List.forall_mem_cons, and_iff_right (by trivial : (not c).IsShaped)]
  rfl

theorem shaped_residual {cs : List Condition} :
    (∀ c ∈ residual cs, c.Shaped) ↔ ∀ c ∈ cs, c.Shaped := by
  match cs with
  | [] | [_] | _ :: _ :: _ => simp [residual, shaped_join]

theorem SplitsAt.shaped_iff {idField : String} {c : Condition} {split : KeySplit}
    (h : c.SplitsAt idField split) :
    c.Shaped ↔ split.key.Shaped ∧ ∀ x ∈ split.rest, x.Shaped := by
  cases h with
  | root => exact (and_iff_left (List.forall_mem_nil _)).symm
  | part =>
    rw [shaped_join, and_iff_right (by simp), List.forall_mem_append, List.forall_mem_cons,
      List.forall_mem_append]
    exact and_left_comm

end Condition

/-! ## What is compiled -/

namespace Dialect

variable {F N : Type} {d : Dialect (Except QueryError) F N} {config : CompilerConfig}
  {entity : String}

theorem Converts.takes {scope : Scope} {o : Operator} {v : Value} {x : Operand N}
    (h : d.Converts scope o v x) : o.Takes v := by
  cases h with
  | range => exact ⟨_, _, rfl⟩
  | choice hne hs _ => exact ⟨_, rfl, hne, List.all_eq_true.mp hs⟩
  | pattern => exact ⟨_, rfl⟩
  | value hb hi hl => cases o <;> first | contradiction | trivial

theorem shaped_of_predicate {o : Operator} {e : Element} {p : Predicate N}
    (h : d.predicate config entity o e = .ok p) : (Condition.predicate o e).Shaped := by
  obtain ⟨hname, _, hx, -⟩ := converts_of_predicate_eq_ok h
  exact Condition.shaped_predicate.mpr ⟨hname, hx.takes⟩

theorem shaped_of_lowerCondition {c : Condition} {b b' : Binder N} {f : F}
    (h : d.lowerCondition config entity c b = .ok (f, b')) : c.Shaped := by
  refine lowerCondition_induct (R := fun c _ _ _ => c.Shaped) ?_ ?_ ?_ h
  · intro o e b p f b' hp _
    exact shaped_of_predicate hp
  · intro connective cs b fs b' f hne hcs _
    exact Condition.shaped_join.mpr ⟨hne, hcs.forall_mem⟩
  · intro c b f b' g hc _
    exact Condition.shaped_not.mpr hc

theorem shaped_of_keys {k : Condition} {ns : List N} (h : d.keys config entity k = .ok ns) :
    k.Shaped := by
  cases k with
  | predicate o e =>
    simp only [keys] at h
    split at h
    · cases h
    · obtain ⟨p, hp, -⟩ := bind_eq_ok.mp h
      exact shaped_of_predicate hp
  | join | not => cases h

theorem shaped_of_lowerRest {rest : List Condition} {b b' : Binder N} {filter : Option F}
    (h : d.lowerRest config entity rest b = .ok (filter, b')) : ∀ c ∈ rest, c.Shaped := by
  rw [← Condition.shaped_residual]
  intro c hc
  rw [lowerRest_eq, hc] at h
  obtain ⟨r, hr, -⟩ := map_eq_ok.mp h
  exact shaped_of_lowerCondition hr

/-- **What is compiled has the shapes that are checked for**, in its filter and among its keys. -/
theorem shaped_of_compile {q : Query} {s : Statement F N} (h : d.compile config q = .ok s) :
    ∀ c ∈ q.condition, c.Shaped := by
  obtain ⟨l, hl, -⟩ := exists_lowering_of_compile h
  intro c hc
  cases hl with
  | empty hq =>
    rw [hq] at hc
    cases hc
  | whole hq _ hlower =>
    obtain rfl := Option.some.inj (hq.symm.trans hc)
    exact shaped_of_lowerCondition hlower
  | split hq hsplit hkeys hrest =>
    obtain rfl := Option.some.inj (hq.symm.trans hc)
    exact (splitsAt_of_keySplit? hsplit).shaped_iff.mpr
      ⟨shaped_of_keys hkeys, shaped_of_lowerRest hrest⟩

end Dialect

/-! ## Backstops -/

/-- The error reports a predicate whose shape should have been checked before: one that a dialect
has nothing to write for, or a key that is none. -/
inductive QueryError.IsBackstop : QueryError → Prop
  | malformed (o : Operator) (field : String) : IsBackstop (.invalid (.malformed o field))
  | keyShape : IsBackstop (.invalid .keyShape)
  | keyRange : IsBackstop (.invalid .keyRange)

/-- The computation reports no such predicate, whatever else it reports. -/
abbrev NoBackstop {α : Type} (x : Except QueryError α) : Prop := ErrsOnly (¬ ·.IsBackstop) x

theorem not_isBackstop_unsupported (backend operation : String) :
    ¬ (QueryError.unsupported backend operation).IsBackstop := nofun

theorem not_isBackstop_bindingConflict (name : String) :
    ¬ (QueryError.bindingConflict name).IsBackstop := nofun

theorem QueryError.IsConversion.not_isBackstop {entity : String} {e : QueryError}
    (h : e.IsConversion entity) : ¬ e.IsBackstop := by
  obtain ⟨field, fault, rfl⟩ := h
  nofun

namespace Dialect

variable {F N : Type} {d : Dialect (Except QueryError) F N} {config : CompilerConfig} {q : Query}

theorem shapeErrors_not_isBackstop : ShapeErrors (¬ ·.IsBackstop) :=
  ⟨nofun, nofun, nofun, nofun, nofun, nofun⟩

/-- The dialect has something to write for every predicate that it can express and whose shape was
checked, and none of its other steps report any. -/
structure SparesBackstops (d : Dialect (Except QueryError) F N) : Prop where
  toNative (scope : Scope) (v : Value) : NoBackstop (d.toNative scope v)
  lower {scope : Scope} {o : Operator} {v : Value} {x : Operand N} (name path : String)
    (b : Binder N) (ho : o ∈ d.capabilities.operators) (hx : d.Converts scope o v x) :
    NoBackstop (d.lower ⟨o, name, path, x⟩ b)
  join (c : Connective) (fs : List F) : NoBackstop (d.join c fs)
  negate (f : F) : NoBackstop (d.negate f)
  assemble (config : CompilerConfig) (q : Query) (l : Lowered F N) :
    NoBackstop (d.assemble config q l)

variable (d config q) in
/-- The shapes of a condition are checked before anything else could find them wrong. -/
structure ChecksShapes : Prop where
  /-- No predicate is reported that should have been checked before. -/
  compile_ne {e : QueryError} (he : e.IsBackstop) : d.compile config q ≠ .error e
  /-- What is compiled has passed the checks. -/
  shaped {s : Statement F N} (hs : d.compile config q = .ok s) : ∀ c ∈ q.condition, c.Shaped
  /-- So have the predicate that became a key lookup and its siblings. -/
  diverted {s : Statement F N} (hs : d.compile config q = .ok s) {c : Condition}
    {split : KeySplit} (hc : q.condition = some c) (hsplit : d.keySplit? config c = some split) :
    split.key.Shaped ∧ ∀ x ∈ split.rest, x.Shaped

namespace SparesBackstops

variable (hd : d.SparesBackstops)

include hd

theorem stepErrors (config : CompilerConfig) (entity : String) :
    d.StepErrors config entity (¬ ·.IsBackstop) where
  emptyJoin _ := nofun
  predicate := errsOnly_predicate shapeErrors_not_isBackstop hd.toNative
  lower b ho hp := by
    obtain ⟨-, x, hx, rfl⟩ := converts_of_predicate_eq_ok hp
    exact hd.lower _ _ b ho hx
  join fs _ := hd.join _ fs
  negate _ _ := hd.negate _

theorem noBackstop_lowerRoot {c : Condition} (hc : d.capabilities.firstUnsupported c = none)
    (config : CompilerConfig) (entity : String) : NoBackstop (d.lowerRoot config entity c) :=
  errsOnly_lowerRoot (hd.stepErrors config entity)
    (errsOnly_keys shapeErrors_not_isBackstop hd.toNative nofun) hc

theorem noBackstop_compile : NoBackstop (d.compile config q) :=
  errsOnly_compile (not_isBackstop_unsupported d.name)
    (fun _ hc => hd.noBackstop_lowerRoot hc config q.entity) fun l _ => hd.assemble config q l

/-- **A dialect that has something to write for every shape reaches none of its backstops.** -/
theorem checksShapes (config : CompilerConfig) (q : Query) : d.ChecksShapes config q where
  compile_ne he h := hd.noBackstop_compile _ h he
  shaped := shaped_of_compile
  diverted hs _ _ hc hsplit :=
    (splitsAt_of_keySplit? hsplit).shaped_iff.mp
      (shaped_of_compile hs _ hc)

end SparesBackstops

end Dialect

end PortableQuery
