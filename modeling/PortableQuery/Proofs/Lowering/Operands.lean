import PortableQuery.Proofs.Lowering.Keys

set_option autoImplicit false

/-!
# Operands in the order in which they are bound

What a walk binds and what its filter uses are the operands of the predicates, from left to right; a
dialect only has to show this of its predicates, joins and negations.
-/

namespace PortableQuery

/-! ## Operands -/

namespace Formula

variable {α : Type}

/-- The atoms of a formula, from left to right. -/
def atoms : Formula α → List α := fold ([·]) (fun _ => List.flatten) id

@[simp] theorem atoms_atom (a : α) : (atom a).atoms = [a] := rfl

@[simp] theorem atoms_join (c : Connective) (fs : List (Formula α)) :
    (join c fs).atoms = fs.flatMap atoms := by
  rw [atoms, fold_join, List.flatMap_def]

@[simp] theorem atoms_not (f : Formula α) : (not f).atoms = f.atoms := rfl

theorem atoms_map {β : Type} (g : α → β) (f : Formula α) : (f.map g).atoms = f.atoms.map g := by
  induction f using Formula.induct with
  | atom a => rfl
  | join c fs ih =>
    rw [map_join, atoms_join, atoms_join, List.flatMap_map, List.map_flatMap]
    exact List.flatMap_congr ih
  | not f ih => rw [map_not, atoms_not, atoms_not, ih]

end Formula

/-- A comparison as comparisons with single values: two for a range, the lower bound first, and one
for each item of a choice. -/
def Comparison.operands {N : Type} (items? : N → Option (List N)) (a : Comparison N) :
    List (Comparison N) :=
  match a.operator, items? a.value with
  | .between, some [lower, upper] => [⟨.between, a.field, lower⟩, ⟨.between, a.field, upper⟩]
  | .oneOf, some items => items.map (⟨.oneOf, a.field, ·⟩)
  | _, _ => [a]

theorem Comparison.operands_of_single {N : Type} (items? : N → Option (List N)) {o : Operator}
    (hb : o ≠ .between) (hi : o ≠ .oneOf) (field : String) (v : N) :
    Comparison.operands items? ⟨o, field, v⟩ = [⟨o, field, v⟩] := by
  cases o <;> first | contradiction | rfl

namespace Condition

/-- The operands of a condition, depth first and from left to right. -/
def operands (c : Condition) : List (Comparison Value) :=
  c.formula.atoms.flatMap (Comparison.operands Value.items?)

@[simp] theorem operands_predicate (o : Operator) (e : Element) :
    (predicate o e).operands = Comparison.operands Value.items? ⟨o, e.name, e.value⟩ := by
  rw [operands, formula_predicate, Formula.atoms_atom, List.flatMap_singleton]

@[simp] theorem operands_join (c : Connective) (cs : List Condition) :
    (join c cs).operands = cs.flatMap operands := by
  rw [operands, formula_join, Formula.atoms_join, List.flatMap_map, List.flatMap_assoc]
  rfl

@[simp] theorem operands_not (c : Condition) : (not c).operands = c.operands := rfl

end Condition

/-- The operands of a condition, if there is one. -/
def operandsOf (c : Option Condition) : List (Comparison Value) := c.toList.flatMap (·.operands)

/-! ## Values that are bound one after the other -/

/-- The placeholder of the value that is bound for `field` at an ordinal. -/
def ParamStyle.placeholder (style : ParamStyle) (field : String) (ordinal : Nat) : String :=
  match style with
  | .dollar => "$" ++ toString ordinal
  | .question => "?"
  | .named sigil => String.singleton sigil ++ parameterName field ordinal
  | .inline => ""

/-- The name of the value that is bound for `field` at an ordinal, where values have names. -/
def ParamStyle.name? (style : ParamStyle) (field : String) (ordinal : Nat) : Option String :=
  match style with
  | .named _ => some (parameterName field ordinal)
  | _ => none

section From

variable {N : Type} (style : ParamStyle)

/-- The parameters of values that are bound for fields, from an ordinal on. -/
def parametersFrom : Nat → List (Named N) → List (Parameter N)
  | _, [] => []
  | n, u :: us => ⟨style.name? u.name n, u.value⟩ :: parametersFrom (n + 1) us

/-- The placeholders of values that are bound for fields, from an ordinal on. -/
def placeholdersFrom : Nat → List (Named N) → List String
  | _, [] => []
  | n, u :: us => style.placeholder u.name n :: placeholdersFrom (n + 1) us

@[simp] theorem length_parametersFrom (n : Nat) (us : List (Named N)) :
    (parametersFrom style n us).length = us.length := by
  induction us generalizing n with
  | nil => rfl
  | cons u us ih => rw [parametersFrom, List.length_cons, ih, List.length_cons]

theorem parametersFrom_append (n : Nat) (us vs : List (Named N)) :
    parametersFrom style n (us ++ vs) =
      parametersFrom style n us ++ parametersFrom style (n + us.length) vs := by
  induction us generalizing n with
  | nil => rfl
  | cons u us ih =>
    have hn : n + 1 + us.length = n + (u :: us).length := by rw [List.length_cons]; omega
    rw [List.cons_append, parametersFrom, ih, hn, parametersFrom, List.cons_append]

theorem placeholdersFrom_append (n : Nat) (us vs : List (Named N)) :
    placeholdersFrom style n (us ++ vs) =
      placeholdersFrom style n us ++ placeholdersFrom style (n + us.length) vs := by
  induction us generalizing n with
  | nil => rfl
  | cons u us ih =>
    have hn : n + 1 + us.length = n + (u :: us).length := by rw [List.length_cons]; omega
    rw [List.cons_append, placeholdersFrom, ih, hn, placeholdersFrom, List.cons_append]

theorem placeholdersFrom_dollar (n : Nat) (us : List (Named N)) :
    placeholdersFrom .dollar n us = (List.range' n us.length).map fun i => "$" ++ toString i := by
  induction us generalizing n with
  | nil => rfl
  | cons u us ih =>
    rw [placeholdersFrom, ih, List.length_cons, List.range'_succ, List.map_cons]
    rfl

theorem placeholdersFrom_question (n : Nat) (us : List (Named N)) :
    placeholdersFrom .question n us = List.replicate us.length "?" := by
  induction us generalizing n with
  | nil => rfl
  | cons u us ih =>
    rw [placeholdersFrom, ih, List.length_cons, List.replicate_succ]
    rfl

theorem placeholdersFrom_eq_mapIdx (n : Nat) (us : List (Named N)) :
    placeholdersFrom style n us = us.mapIdx fun i u => style.placeholder u.name (n + i) := by
  induction us generalizing n with
  | nil => rfl
  | cons u us ih =>
    rw [placeholdersFrom, ih, List.mapIdx_cons]
    simp only [Nat.add_zero, Nat.add_assoc, Nat.add_comm 1]

theorem parametersFrom_eq_mapIdx (n : Nat) (us : List (Named N)) :
    parametersFrom style n us = us.mapIdx fun i u => ⟨style.name? u.name (n + i), u.value⟩ := by
  induction us generalizing n with
  | nil => rfl
  | cons u us ih =>
    rw [parametersFrom, ih, List.mapIdx_cons]
    simp only [Nat.add_zero, Nat.add_assoc, Nat.add_comm 1]

theorem parametersFrom_eq_map (h : ∀ field n, style.name? field n = none) (n : Nat)
    (us : List (Named N)) :
    parametersFrom style n us = us.map fun u => ⟨none, u.value⟩ := by
  induction us generalizing n with
  | nil => rfl
  | cons u us ih => rw [parametersFrom, ih, h, List.map_cons]

end From

namespace Binder

variable {N : Type}

/-- The binder with values bound for fields behind those that it holds. -/
def extend (b : Binder N) (us : List (Named N)) : Binder N :=
  { b with parameters := b.parameters ++ parametersFrom b.style b.nextOrdinal us }

@[simp] theorem extend_style (b : Binder N) (us : List (Named N)) :
    (b.extend us).style = b.style := rfl

@[simp] theorem nextOrdinal_extend (b : Binder N) (us : List (Named N)) :
    (b.extend us).nextOrdinal = b.nextOrdinal + us.length := by
  simp only [extend, nextOrdinal, List.length_append, length_parametersFrom]
  omega

@[simp] theorem extend_nil (b : Binder N) : b.extend [] = b := by
  simp [extend, parametersFrom]

theorem extend_extend (b : Binder N) (us vs : List (Named N)) :
    (b.extend us).extend vs = b.extend (us ++ vs) := by
  rw [extend, nextOrdinal_extend]
  simp only [extend, parametersFrom_append, List.append_assoc]

/-- **Binding a value gives its placeholder and adds the value.** -/
theorem bind_eq_ok {b b' : Binder N} {field p : String} {v : N} (h : b.bind field v = .ok (p, b')) :
    p = b.style.placeholder field b.nextOrdinal ∧ b' = b.extend [⟨field, v⟩] := by
  have hextend : b.extend [⟨field, v⟩] = b.push (b.style.name? field b.nextOrdinal) v := rfl
  rw [hextend]
  cases hs : b.style with
  | dollar | question | inline =>
    simp only [bind, hs, Except.ok.injEq, Prod.mk.injEq] at h
    obtain ⟨rfl, rfl⟩ := h
    exact ⟨rfl, rfl⟩
  | named sigil =>
    simp only [bind, hs, bindNamed, namedPlaceholder] at h
    split at h
    · cases h
    · obtain ⟨rfl, rfl⟩ := Prod.mk.inj (Except.ok.inj h)
      exact ⟨rfl, rfl⟩

theorem bindPair_eq_ok {b b' : Binder N} {field text : String} {v w : N}
    (write : String → String → String)
    (h : (do
      let (p, b) ← b.bind field v
      let (q, b) ← b.bind field w
      pure (write p q, b)) = Except.ok (text, b')) :
    text = write (b.style.placeholder field b.nextOrdinal)
        (b.style.placeholder field (b.nextOrdinal + 1)) ∧
      b' = b.extend [⟨field, v⟩, ⟨field, w⟩] := by
  obtain ⟨⟨p, b₁⟩, hv, h⟩ := PortableQuery.bind_eq_ok.mp h
  obtain ⟨⟨q, b₂⟩, hw, h⟩ := PortableQuery.bind_eq_ok.mp h
  obtain ⟨rfl, rfl⟩ := Prod.mk.inj (pure_eq_ok.mp h)
  obtain ⟨rfl, rfl⟩ := bind_eq_ok hv
  obtain ⟨rfl, rfl⟩ := bind_eq_ok hw
  rw [extend_extend, extend_style, nextOrdinal_extend]
  exact ⟨rfl, rfl⟩

/-- **Binding several values gives their placeholders and adds the values.** -/
theorem bindAll_eq_ok {b b' : Binder N} {field : String} {vs : List N} {ps : List String}
    (h : b.bindAll field vs = .ok (ps, b')) :
    ps = placeholdersFrom b.style b.nextOrdinal (vs.map (⟨field, ·⟩)) ∧
      b' = b.extend (vs.map (⟨field, ·⟩)) := by
  induction vs generalizing b ps with
  | nil =>
    obtain ⟨rfl, rfl⟩ := Prod.mk.inj (Except.ok.inj h)
    exact ⟨rfl, (extend_nil b).symm⟩
  | cons v vs ih =>
    simp only [bindAll] at h
    obtain ⟨⟨p, b₁⟩, hv, h⟩ := PortableQuery.bind_eq_ok.mp h
    obtain ⟨⟨ps', b₂⟩, hvs, h⟩ := PortableQuery.bind_eq_ok.mp h
    obtain ⟨rfl, rfl⟩ := Prod.mk.inj (pure_eq_ok.mp h)
    obtain ⟨rfl, rfl⟩ := bind_eq_ok hv
    obtain ⟨rfl, rfl⟩ := ih hvs
    rw [extend_extend]
    exact ⟨by simp [placeholdersFrom], rfl⟩

theorem bindList_eq_ok {b b' : Binder N} {field text : String} {vs : List N}
    (write : String → String)
    (h : (do
      let (ps, b) ← b.bindAll field vs
      pure (write (String.intercalate ", " ps), b)) = Except.ok (text, b')) :
    text = write (String.intercalate ", "
        (placeholdersFrom b.style b.nextOrdinal (vs.map (⟨field, ·⟩)))) ∧
      b' = b.extend (vs.map (⟨field, ·⟩)) := by
  obtain ⟨⟨ps, b₁⟩, hps, h⟩ := PortableQuery.bind_eq_ok.mp h
  obtain ⟨rfl, rfl⟩ := Prod.mk.inj (pure_eq_ok.mp h)
  obtain ⟨rfl, rfl⟩ := bindAll_eq_ok hps
  exact ⟨rfl, rfl⟩

end Binder

/-! ## Walks -/

/-- Filters use values one after the other, each from where the one before it has left off. -/
inductive UsesAll {F N : Type} (uses : Nat → List (Named N) → F → Prop) :
    Nat → List (Named N) → List F → Prop
  | nil (n : Nat) : UsesAll uses n [] []
  | cons {n : Nat} {us vs : List (Named N)} {f : F} {fs : List F} : uses n us f →
      UsesAll uses (n + us.length) vs fs → UsesAll uses n (us ++ vs) (f :: fs)

/-- The values of an operand, in order. -/
def Operand.values {N : Type} : Operand N → List N
  | .single v => [v]
  | .range lower upper => [lower, upper]
  | .many vs => vs

namespace Dialect

variable {F N : Type}

/-- The operand of a comparison is bound for its field, converted and then translated. -/
def Bound (d : Dialect (Except QueryError) F N) (translate : Operator → N → N) (entity : String)
    (a : Comparison Value) (u : Named N) : Prop :=
  u.name = a.field ∧
    (d.toNative ⟨entity, a.field⟩ a.value).map (translate a.operator) = .ok u.value

theorem forall₂_bound {d : Dialect (Except QueryError) F N} {translate : Operator → N → N}
    {entity field : String} (o : Operator) {vs : List Value} {ns : List N}
    (h : List.Forall₂ (fun v n => d.toNative ⟨entity, field⟩ v = .ok n) vs ns) :
    List.Forall₂ (d.Bound translate entity) (vs.map (⟨o, field, ·⟩))
      (ns.map fun n => ⟨field, translate o n⟩) := by
  rw [List.forall₂_map_left_iff, List.forall₂_map_right_iff]
  refine h.imp fun v n hn => ⟨rfl, ?_⟩
  rw [hn]
  rfl

/-- **A converted operand is the operands of its comparison, one by one.** -/
theorem Converts.bound {d : Dialect (Except QueryError) F N} {entity field : String} {o : Operator}
    {v : Value} {x : Operand N} (h : d.Converts ⟨entity, field⟩ o v x)
    (translate : Operator → N → N) :
    List.Forall₂ (d.Bound translate entity) (Comparison.operands Value.items? ⟨o, field, v⟩)
      (x.values.map fun n => ⟨field, translate o n⟩) := by
  cases h with
  | range hl hu => exact forall₂_bound .between (.cons hl (.cons hu .nil))
  | choice _ _ hns => exact forall₂_bound .oneOf hns
  | pattern hn => exact forall₂_bound .like (.cons hn .nil)
  | value hb hi _ hn =>
    rw [Comparison.operands_of_single _ hb hi]
    exact forall₂_bound o (.cons hn .nil)

/-- What a dialect binds, and what its filters use. -/
structure Binding (d : Dialect (Except QueryError) F N) where
  /-- The operand is bound. -/
  binds : Comparison Value → Bool
  /-- What becomes of the converted operand of an operator. -/
  translate : Operator → N → N
  /-- The filter uses these values, bound from an ordinal on. -/
  uses : Nat → List (Named N) → F → Prop
  predicate {config : CompilerConfig} {entity : String} {o : Operator} {e : Element}
    {p : Predicate N} {b b' : Binder N} {f : F} (hp : d.predicate config entity o e = .ok p)
    (hl : d.lower p b = .ok (f, b')) (hb : b.style = d.style) :
    ∃ us, b' = b.extend us ∧ List.Forall₂ (d.Bound translate entity)
      ((Comparison.operands Value.items? ⟨o, e.name, e.value⟩).filter binds) us ∧
      uses b.nextOrdinal us f
  join {c : Connective} {n : Nat} {us : List (Named N)} {fs : List F} {f : F} (hne : fs ≠ [])
    (hfs : UsesAll uses n us fs) (hf : d.join c fs = .ok f) : uses n us f
  negate {n : Nat} {us : List (Named N)} {f g : F} (hf : uses n us f) (hg : d.negate f = .ok g) :
    uses n us g

namespace Binding

variable {d : Dialect (Except QueryError) F N} (B : d.Binding) {config : CompilerConfig}
  {entity : String}

/-- From one binder to another the operands of the condition are bound, in their order, and the
filter uses their values in that order. -/
def Binds (entity : String) (c : Condition) (b : Binder N) (f : F) (b' : Binder N) : Prop :=
  b.style = d.style → ∃ us, b' = b.extend us ∧
    List.Forall₂ (d.Bound B.translate entity) (c.operands.filter B.binds) us ∧
    B.uses b.nextOrdinal us f

variable {B}

theorem exists_of_chain {cs : List Condition} {b b' : Binder N} {fs : List F}
    (h : Chain (B.Binds entity) cs b fs b') (hb : b.style = d.style) :
    ∃ us, b' = b.extend us ∧ List.Forall₂ (d.Bound B.translate entity)
      ((cs.flatMap Condition.operands).filter B.binds) us ∧
      UsesAll B.uses b.nextOrdinal us fs := by
  induction h with
  | nil b => exact ⟨[], b.extend_nil.symm, .nil, .nil _⟩
  | cons hc _ ih =>
    obtain ⟨us, rfl, hus, huses⟩ := hc hb
    obtain ⟨vs, rfl, hvs, huses'⟩ := ih hb
    rw [Binder.nextOrdinal_extend] at huses'
    refine ⟨us ++ vs, Binder.extend_extend .., ?_, .cons huses huses'⟩
    rw [List.flatMap_cons, List.filter_append]
    exact List.rel_append hus hvs

variable (B) in
/-- **A walk binds the operands of the condition in their order, and its filter uses them in that
order.** -/
theorem exists_of_lowerCondition {c : Condition} {b b' : Binder N} {f : F}
    (h : d.lowerCondition config entity c b = .ok (f, b')) : B.Binds entity c b f b' := by
  refine lowerCondition_induct (R := B.Binds entity) ?_ ?_ ?_ h
  · intro o e b p f b' hp hl hb
    rw [Condition.operands_predicate]
    exact B.predicate hp hl hb
  · intro c cs b fs b' f hne hcs hf hb
    have hlength := hcs.length_eq
    have hne' : fs ≠ [] := by
      rintro rfl
      exact hne (List.length_eq_zero_iff.mp hlength.symm)
    obtain ⟨us, rfl, hus, huses⟩ := exists_of_chain hcs hb
    rw [Condition.operands_join]
    exact ⟨us, rfl, hus, B.join hne' huses hf⟩
  · intro c b f b' g hc hg hb
    obtain ⟨us, rfl, hus, huses⟩ := hc hb
    exact ⟨us, rfl, hus, B.negate huses hg⟩

/-- The filter uses the values from the first ordinal on; where there is none, there are none. -/
def UsedBy (us : List (Named N)) : Option F → Prop
  | none => us = []
  | some f => B.uses 1 us f

variable (B) in
/-- **What is left of a condition binds its operands, and its filter uses them.** -/
theorem exists_of_restLowered {rest : Option Condition} {filter : Option F}
    {ps : List (Parameter N)} (h : d.RestLowered config entity rest filter ps) :
    ∃ us, ps = parametersFrom d.style 1 us ∧ List.Forall₂ (d.Bound B.translate entity)
      ((operandsOf rest).filter B.binds) us ∧ B.UsedBy us filter := by
  cases h with
  | none => exact ⟨[], rfl, .nil, rfl⟩
  | some hc =>
    obtain ⟨us, rfl, hus, huses⟩ := B.exists_of_lowerCondition hc rfl
    rw [operandsOf, Option.toList_some, List.flatMap_singleton]
    exact ⟨us, List.nil_append _, hus, huses⟩

end Binding

theorem restLowered_of_lowering {d : Dialect (Except QueryError) F N} {config : CompilerConfig}
    (hd : d.capabilities.pointLookup = false) {q : Query} {l : Lowered F N}
    (h : d.Lowering config q l) :
    d.RestLowered config q.entity q.condition l.filter l.parameters := by
  cases h with
  | empty hq =>
    rw [hq]
    exact .none
  | whole hq _ hc =>
    rw [hq]
    exact .some hc
  | split _ hk _ _ =>
    rw [keySplit?, hd, Bool.false_and] at hk
    cases hk

end Dialect

end PortableQuery
