import PortableQuery.Proofs.Lowering.Operands

set_option autoImplicit false

/-!
# Two queries that differ in their operands

Where placeholders stand for values, a filter is written from the operators, the fields and the
number of values of its predicates. Two conditions that differ in their operands alone are therefore
lowered to one text, and to parameters of the same names, whatever the operands are.
-/

namespace PortableQuery

/-! ## Comparisons without their operands -/

/-- A comparison without its operand: the operator, the field, and how many members a choice has. -/
structure Comparison.Shape where
  operator : Operator
  field : String
  members : Option Nat
deriving DecidableEq, Repr

/-- The comparison without its operand. -/
def Comparison.shape (a : Comparison Value) : Comparison.Shape :=
  ⟨a.operator, a.field, if a.operator = .oneOf then a.value.items?.map List.length else none⟩

/-- How many values a comparison of this shape has. -/
def Comparison.Shape.count (s : Comparison.Shape) : Nat :=
  match s.operator with
  | .between => 2
  | .oneOf => s.members.getD 0
  | _ => 1

/-- The shape of a comparison can be told from a view of it. -/
structure Comparison.View (α : Type) where
  view : Comparison Value → α
  shape : α → Comparison.Shape
  shape_view (a : Comparison Value) : shape (view a) = a.shape

/-- The view that shows nothing of the operand. -/
def Comparison.View.shapes : Comparison.View Comparison.Shape where
  view := Comparison.shape
  shape := id
  shape_view _ := rfl

/-- The two queries differ in the operands of their predicates only, and not even there as far as
the view shows them. -/
structure Query.Alike {α : Type} (view : Comparison Value → α) (q q' : Query) : Prop where
  frame_eq : q' = { q with condition := q'.condition }
  condition_eq : q.condition.map (·.formula.map view) = q'.condition.map (·.formula.map view)

theorem Dialect.Converts.length_values {F N : Type} {d : Dialect (Except QueryError) F N}
    {scope : Scope} {o : Operator} {v : Value} {x : Operand N} (h : d.Converts scope o v x) :
    x.values.length = (Comparison.shape ⟨o, scope.field, v⟩).count := by
  cases h with
  | range | pattern => rfl
  | choice _ _ hns => exact hns.length_eq.symm
  | value hb hi => cases o <;> first | contradiction | rfl

/-! ## Values that are bound for the same fields -/

section From

variable {N : Type} (style : ParamStyle) {us vs : List (Named N)}

theorem placeholdersFrom_congr (h : us.map (·.name) = vs.map (·.name)) (n : Nat) :
    placeholdersFrom style n us = placeholdersFrom style n vs := by
  induction us generalizing vs n with
  | nil => rw [List.map_eq_nil_iff.mp h.symm]
  | cons u us ih =>
    obtain ⟨v, vs, rfl, hname, hnames⟩ := List.map_eq_cons_iff.mp h.symm
    rw [placeholdersFrom, placeholdersFrom, ih hnames.symm, hname]

theorem names_parametersFrom_congr (h : us.map (·.name) = vs.map (·.name)) (n : Nat) :
    (parametersFrom style n us).map (·.name) = (parametersFrom style n vs).map (·.name) := by
  induction us generalizing vs n with
  | nil => rw [List.map_eq_nil_iff.mp h.symm]
  | cons u us ih =>
    obtain ⟨v, vs, rfl, hname, hnames⟩ := List.map_eq_cons_iff.mp h.symm
    rw [parametersFrom, parametersFrom, List.map_cons, List.map_cons, ih hnames.symm, hname]

end From

/-- The binders hold values under the same names, and go on alike. -/
structure Binder.Alike {N : Type} (b c : Binder N) : Prop where
  style_eq : b.style = c.style
  nextOrdinal_eq : b.nextOrdinal = c.nextOrdinal
  names_eq : b.parameters.map (·.name) = c.parameters.map (·.name)

theorem Binder.Alike.extend {N : Type} {b c : Binder N} {us vs : List (Named N)} (h : b.Alike c)
    (hnames : us.map (·.name) = vs.map (·.name)) : (b.extend us).Alike (c.extend vs) := by
  have hlength : us.length = vs.length := by simpa using congrArg List.length hnames
  refine ⟨h.style_eq, ?_, ?_⟩
  · rw [nextOrdinal_extend, nextOrdinal_extend, h.nextOrdinal_eq, hlength]
  · simp only [Binder.extend, List.map_append, h.names_eq, h.style_eq, h.nextOrdinal_eq,
      names_parametersFrom_congr _ hnames]

/-! ## Walks side by side -/

theorem forall₂_of_map_eq_map {α β γ : Type} {f : α → γ} {g : β → γ} {R : α → β → Prop}
    {xs : List α} {ys : List β} (h : xs.map f = ys.map g)
    (hR : ∀ x ∈ xs, ∀ y, f x = g y → R x y) : List.Forall₂ R xs ys := by
  induction xs generalizing ys with
  | nil =>
    rw [List.map_eq_nil_iff.mp h.symm]
    exact .nil
  | cons x xs ih =>
    obtain ⟨y, ys, rfl, hy, hys⟩ := List.map_eq_cons_iff.mp h.symm
    rw [List.forall_mem_cons] at hR
    exact .cons (hR.1 y hy.symm) (ih hys.symm hR.2)

namespace Dialect

variable {F N α : Type} {d : Dialect (Except QueryError) F N} {V : Comparison.View α}
  {config : CompilerConfig} {entity : String}

/-- How a dialect writes a predicate: with placeholders for the values that it binds. How many these
are can be told from a view of the comparison. -/
structure Template (d : Dialect (Except QueryError) F N) (V : Comparison.View α) where
  /-- The values of an operand that are bound. -/
  values : Operator → Operand N → List N
  /-- How many values of a comparison are bound. -/
  count : α → Nat
  /-- The filter of an operator, a path and placeholders. -/
  write : Operator → String → List String → F
  lower_eq_ok {scope : Scope} {o : Operator} {v : Value} {x : Operand N} {path : String}
    {b b' : Binder N} {f : F} (hx : d.Converts scope o v x)
    (h : d.lower ⟨o, scope.field, path, x⟩ b = .ok (f, b')) :
    f = write o path
        (placeholdersFrom b.style b.nextOrdinal ((values o x).map (⟨scope.field, ·⟩))) ∧
      b' = b.extend ((values o x).map (⟨scope.field, ·⟩))
  length_values {scope : Scope} {o : Operator} {v : Value} {x : Operand N}
    (hx : d.Converts scope o v x) : (values o x).length = count (V.view ⟨o, scope.field, v⟩)

variable (d config entity) in
/-- Lowered by alike binders, the two conditions have one filter and leave the binders alike. -/
def Blind (c c' : Condition) : Prop :=
  ∀ b b' f f' b₁ b₁', b.Alike b' → d.lowerCondition config entity c b = .ok (f, b₁) →
    d.lowerCondition config entity c' b' = .ok (f', b₁') → f = f' ∧ b₁.Alike b₁'

theorem Template.blind_predicate (T : d.Template V) {o o' : Operator} {e e' : Element}
    (h : V.view ⟨o, e.name, e.value⟩ = V.view ⟨o', e'.name, e'.value⟩) :
    d.Blind config entity (.predicate o e) (.predicate o' e') := by
  intro b b' f f' b₁ b₁' hb hf hf'
  obtain ⟨p, hp, hf⟩ := bind_eq_ok.mp hf
  obtain ⟨p', hp', hf'⟩ := bind_eq_ok.mp hf'
  rw [ofExcept_eq] at hf hf'
  obtain ⟨-, x, hx, rfl⟩ := converts_of_predicate_eq_ok hp
  obtain ⟨-, x', hx', rfl⟩ := converts_of_predicate_eq_ok hp'
  have hshape : Comparison.shape ⟨o, e.name, e.value⟩ =
      Comparison.shape ⟨o', e'.name, e'.value⟩ := by
    rw [← V.shape_view, h, V.shape_view]
  have ho : o = o' := congrArg Comparison.Shape.operator hshape
  have hname : e.name = e'.name := congrArg Comparison.Shape.field hshape
  have hlength : (T.values o x).length = (T.values o' x').length := by
    rw [T.length_values hx, T.length_values hx', h]
  -- as many values are bound for the same field, so their placeholders are the same
  have hnames : ((T.values o x).map (⟨e.name, ·⟩ : N → Named N)).map (·.name) =
      ((T.values o' x').map (⟨e'.name, ·⟩ : N → Named N)).map (·.name) := by
    simp [Function.comp_def, hname, hlength]
  obtain ⟨rfl, rfl⟩ := T.lower_eq_ok hx hf
  obtain ⟨rfl, rfl⟩ := T.lower_eq_ok hx' hf'
  refine ⟨?_, hb.extend hnames⟩
  rw [hb.style_eq, hb.nextOrdinal_eq, placeholdersFrom_congr _ hnames, ho, hname]

theorem blind_join {k : Connective} {cs cs' : List Condition}
    (h : List.Forall₂ (d.Blind config entity) cs cs') :
    d.Blind config entity (.join k cs) (.join k cs') := by
  have hparts (b b' fs fs' b₁ b₁') (hb : Binder.Alike b b')
      (hfs : d.lowerAll config entity cs b = .ok (fs, b₁))
      (hfs' : d.lowerAll config entity cs' b' = .ok (fs', b₁')) : fs = fs' ∧ b₁.Alike b₁' := by
    induction h generalizing b b' fs fs' with
    | nil =>
      obtain ⟨rfl, rfl⟩ := Prod.mk.inj (pure_eq_ok.mp hfs)
      obtain ⟨rfl, rfl⟩ := Prod.mk.inj (pure_eq_ok.mp hfs')
      exact ⟨rfl, hb⟩
    | cons hc _ ih =>
      obtain ⟨⟨f, b₂⟩, hf, hfs⟩ := bind_eq_ok.mp hfs
      obtain ⟨⟨gs, b₃⟩, hgs, hfs⟩ := bind_eq_ok.mp hfs
      obtain ⟨rfl, rfl⟩ := Prod.mk.inj (pure_eq_ok.mp hfs)
      obtain ⟨⟨f', b₂'⟩, hf', hfs'⟩ := bind_eq_ok.mp hfs'
      obtain ⟨⟨gs', b₃'⟩, hgs', hfs'⟩ := bind_eq_ok.mp hfs'
      obtain ⟨rfl, rfl⟩ := Prod.mk.inj (pure_eq_ok.mp hfs')
      obtain ⟨rfl, hb₂⟩ := hc _ _ _ _ _ _ hb hf hf'
      obtain ⟨rfl, hb₃⟩ := ih _ _ _ _ hb₂ hgs hgs'
      exact ⟨rfl, hb₃⟩
  intro b b' f f' b₁ b₁' hb hf hf'
  simp only [lowerCondition] at hf hf'
  split at hf
  · exact absurd hf throw_ne_ok
  split at hf'
  · exact absurd hf' throw_ne_ok
  obtain ⟨⟨fs, b₂⟩, hfs, hf⟩ := bind_eq_ok.mp hf
  obtain ⟨g, hg, hf⟩ := bind_eq_ok.mp hf
  obtain ⟨rfl, rfl⟩ := Prod.mk.inj (pure_eq_ok.mp hf)
  obtain ⟨⟨fs', b₂'⟩, hfs', hf'⟩ := bind_eq_ok.mp hf'
  obtain ⟨g', hg', hf'⟩ := bind_eq_ok.mp hf'
  obtain ⟨rfl, rfl⟩ := Prod.mk.inj (pure_eq_ok.mp hf')
  obtain ⟨rfl, hb₂⟩ := hparts _ _ _ _ _ _ hb hfs hfs'
  exact ⟨Except.ok.inj (hg.symm.trans hg'), hb₂⟩

theorem blind_not {c c' : Condition} (h : d.Blind config entity c c') :
    d.Blind config entity (.not c) (.not c') := by
  intro b b' f f' b₁ b₁' hb hf hf'
  obtain ⟨⟨g, b₂⟩, hg, hf⟩ := bind_eq_ok.mp hf
  obtain ⟨k, hk, hf⟩ := bind_eq_ok.mp hf
  obtain ⟨rfl, rfl⟩ := Prod.mk.inj (pure_eq_ok.mp hf)
  obtain ⟨⟨g', b₂'⟩, hg', hf'⟩ := bind_eq_ok.mp hf'
  obtain ⟨k', hk', hf'⟩ := bind_eq_ok.mp hf'
  obtain ⟨rfl, rfl⟩ := Prod.mk.inj (pure_eq_ok.mp hf')
  obtain ⟨rfl, hb₂⟩ := h _ _ _ _ _ _ hb hg hg'
  exact ⟨Except.ok.inj (hk.symm.trans hk'), hb₂⟩

/-- **Conditions that are alike are lowered to one filter.** -/
theorem Template.blind (T : d.Template V) {c c' : Condition}
    (h : c.formula.map V.view = c'.formula.map V.view) : d.Blind config entity c c' := by
  induction c using Condition.induct generalizing c' with
  | predicate o e =>
    cases c' with
    | predicate o' e' => exact T.blind_predicate (Formula.atom.inj h)
    | join k cs' => rw [Condition.formula_join, Formula.map_join] at h; cases h
    | not c' => cases h
  | join k cs ih =>
    rw [Condition.formula_join, Formula.map_join] at h
    cases c' with
    | predicate o' e' => cases h
    | join k' cs' =>
      rw [Condition.formula_join, Formula.map_join] at h
      obtain ⟨rfl, hcs⟩ := Formula.join.inj h
      rw [List.map_map, List.map_map] at hcs
      exact blind_join (forall₂_of_map_eq_map hcs fun x hx y hxy => ih x hx hxy)
    | not c' => cases h
  | not c ih =>
    cases c' with
    | predicate o' e' => cases h
    | join k cs' =>
      rw [Condition.formula_join, Formula.map_join] at h
      cases h
    | not c' => exact blind_not (ih (Formula.not.inj h))

end Dialect

/-! ## Keys that are split off -/

namespace Comparison.View

variable {α : Type} (V : Comparison.View α) (idField : String)

/-- The formula is an atom that asks for identities. -/
def isKey : Formula α → Bool
  | .atom a =>
    ((V.shape a).operator == .equals || (V.shape a).operator == .oneOf) &&
      (V.shape a).field == idField
  | _ => false

/-- What is left of a formula once its first key is split off, if it has one. -/
def withoutKey? (f : Formula α) : Option (List (Formula α)) :=
  if V.isKey idField f then some []
  else
    match f with
    | .join .and fs =>
      (fs.find? (V.isKey idField)).map fun _ => fs.eraseP (V.isKey idField)
    | _ => none

theorem isKey_formula (c : Condition) :
    V.isKey idField (c.formula.map V.view) = c.isKey idField := by
  cases c with
  | predicate o e =>
    rw [Condition.formula_predicate, Formula.map_atom, isKey, V.shape_view]
    cases o <;> rfl
  | join k cs =>
    rw [Condition.formula_join, Formula.map_join]
    rfl
  | not c => rfl

/-- Where keys are split off, and what is left then, can be told from a view of the comparisons. -/
theorem withoutKey?_formula (c : Condition) :
    V.withoutKey? idField (c.formula.map V.view) =
      (splitKey? idField c).map fun split => split.rest.map (·.formula.map V.view) := by
  have hkey : V.isKey idField ∘ (fun c : Condition => c.formula.map V.view) =
      (·.isKey idField) := funext (V.isKey_formula idField)
  unfold withoutKey? splitKey?
  rw [isKey_formula]
  cases c with
  | predicate o e => split <;> rfl
  | not c => rfl
  | join k cs =>
    rw [Condition.formula_join, Formula.map_join, List.map_map]
    cases k with
    | or => rfl
    | and =>
      have hroot : Condition.isKey idField (.join .and cs) = false := rfl
      have hmap : (Formula.map V.view ∘ Condition.formula) = fun c => c.formula.map V.view := rfl
      simp only [hroot, hmap, Bool.false_eq_true, if_false, List.find?_map, List.eraseP_map, hkey,
        Option.map_map, Function.comp_def]

end Comparison.View

theorem map_residual_congr {β : Type} {g : Condition → β} {cs cs' : List Condition}
    (hjoin : ∀ {cs cs'}, cs.map g = cs'.map g → g (.join .and cs) = g (.join .and cs'))
    (h : cs.map g = cs'.map g) : (residual cs).map g = (residual cs').map g := by
  match cs, cs' with
  | [], [] => rfl
  | [], _ :: _ | _ :: _, [] => cases h
  | [c], [c'] => exact congrArg some (List.cons.inj h).1
  | [_], _ :: _ :: _ | _ :: _ :: _, [_] => cases (List.cons.inj h).2
  | _ :: _ :: _, _ :: _ :: _ => exact congrArg some (hjoin h)

/-! ## Whole queries -/

/-- The lowered conditions differ in values and keys only, and agree on whether there are keys. -/
structure Lowered.Alike {F N : Type} (l l' : Lowered F N) : Prop where
  filter_eq : l.filter = l'.filter
  names_eq : l.parameters.map (·.name) = l'.parameters.map (·.name)
  isEmpty_eq : l.keyLookup.isEmpty = l'.keyLookup.isEmpty

/-- The statements differ in the values of their parameters and in their keys only. -/
structure Statement.SameText {F N : Type} (s s' : Statement F N) : Prop where
  frame_eq : s' = { s with parameters := s'.parameters, keyLookup := s'.keyLookup }
  names_eq : s.parameters.map (·.name) = s'.parameters.map (·.name)

namespace Dialect

variable {F N α : Type} {d : Dialect (Except QueryError) F N} {V : Comparison.View α}
  {config : CompilerConfig} {entity : String}

theorem keys_ne_nil {c : Condition} {ns : List N} (h : d.keys config entity c = .ok ns) :
    ns ≠ [] := by
  cases c with
  | join | not => cases h
  | predicate o e =>
    simp only [keys] at h
    split at h
    · cases h
    obtain ⟨p, hp, h⟩ := bind_eq_ok.mp h
    obtain ⟨-, x, hx, rfl⟩ := converts_of_predicate_eq_ok hp
    generalize e.value = v at hx
    cases hx with
    | range => cases h
    | pattern | value =>
      obtain rfl := pure_eq_ok.mp h
      exact List.cons_ne_nil _ _
    | choice hne _ hns =>
      obtain rfl := pure_eq_ok.mp h
      rintro rfl
      exact hne (List.forall₂_nil_right_iff.mp hns)

variable (d config) in
/-- What is left of a condition once its keys are split off, if it has any. -/
def remainder (c : Option Condition) : Option Condition :=
  match c.bind (d.keySplit? config) with
  | some split => residual split.rest
  | none => c

theorem restLowered_remainder {q : Query} {l : Lowered F N} (h : d.Lowering config q l) :
    d.RestLowered config q.entity (d.remainder config q.condition) l.filter l.parameters ∧
      l.keyLookup.isEmpty = (q.condition.bind (d.keySplit? config)).isNone := by
  unfold remainder
  cases h with
  | empty hq =>
    rw [hq]
    exact ⟨.none, rfl⟩
  | whole hq hk hc =>
    rw [hq, Option.bind_some, hk]
    exact ⟨.some hc, rfl⟩
  | split hq hk hkeys hr =>
    rw [hq, Option.bind_some, hk]
    exact ⟨restLowered_of_lowerRest hr, List.isEmpty_eq_false_iff.mpr (keys_ne_nil hkeys)⟩

variable (d config) in
theorem map_keySplit?_congr {c c' : Option Condition}
    (h : c.map (·.formula.map V.view) = c'.map (·.formula.map V.view)) :
    (c.bind (d.keySplit? config)).map (·.rest.map (·.formula.map V.view)) =
      (c'.bind (d.keySplit? config)).map (·.rest.map (·.formula.map V.view)) := by
  match c, c' with
  | none, none => rfl
  | none, some _ | some _, none => cases h
  | some c, some c' =>
    rw [Option.bind_some, Option.bind_some]
    unfold keySplit?
    split
    · rw [← V.withoutKey?_formula, ← V.withoutKey?_formula]
      exact congrArg (V.withoutKey? config.idField) (Option.some.inj h)
    · rfl

variable (d config) in
theorem map_remainder_congr {c c' : Option Condition}
    (h : c.map (·.formula.map V.view) = c'.map (·.formula.map V.view)) :
    (d.remainder config c).map (·.formula.map V.view) =
      (d.remainder config c').map (·.formula.map V.view) := by
  have hsplit := map_keySplit?_congr d config h
  unfold remainder
  cases hk : c.bind (d.keySplit? config) with
  | none =>
    rw [hk] at hsplit
    rw [Option.map_eq_none_iff.mp hsplit.symm]
    exact h
  | some split =>
    rw [hk] at hsplit
    obtain ⟨split', hk', hrest⟩ := Option.map_eq_some_iff.mp hsplit.symm
    rw [hk']
    refine map_residual_congr (fun hcs => ?_) hrest.symm
    simpa [Function.comp_def] using hcs

theorem Template.eq_of_restLowered (T : d.Template V) {c c' : Option Condition}
    (h : c.map (·.formula.map V.view) = c'.map (·.formula.map V.view)) {f f' : Option F}
    {ps ps' : List (Parameter N)} (hf : d.RestLowered config entity c f ps)
    (hf' : d.RestLowered config entity c' f' ps') :
    f = f' ∧ ps.map (·.name) = ps'.map (·.name) := by
  have hstart : Binder.Alike (N := N) { style := d.style } { style := d.style } := ⟨rfl, rfl, rfl⟩
  cases hf with
  | none =>
    cases hf' with
    | none => exact ⟨rfl, rfl⟩
    | some _ => cases h
  | some hf =>
    cases hf' with
    | none => cases h
    | some hf' =>
      obtain ⟨rfl, hb⟩ := T.blind (Option.some.inj h) _ _ _ _ _ _ hstart hf hf'
      exact ⟨rfl, hb.names_eq⟩

/-- **Alike queries are lowered to one filter and to parameters of the same names.** -/
theorem Template.alike_of_lowering (T : d.Template V) {q q' : Query} (h : q.Alike V.view q')
    {l l' : Lowered F N} (hl : d.Lowering config q l) (hl' : d.Lowering config q' l') :
    l.Alike l' := by
  have hentity : q'.entity = q.entity := by rw [h.frame_eq]
  obtain ⟨hrest, hkeys⟩ := restLowered_remainder hl
  obtain ⟨hrest', hkeys'⟩ := restLowered_remainder hl'
  rw [hentity] at hrest'
  obtain ⟨hfilter, hnames⟩ :=
    T.eq_of_restLowered (map_remainder_congr d config h.condition_eq) hrest hrest'
  refine ⟨hfilter, hnames, ?_⟩
  have hsplit := congrArg Option.isNone (map_keySplit?_congr d config h.condition_eq)
  rwa [Option.isNone_map, Option.isNone_map, ← hkeys, ← hkeys'] at hsplit

/-- **The statements of alike queries are assembled from alike conditions.** -/
theorem Template.exists_alike_of_compile (T : d.Template V) {q q' : Query}
    (h : q.Alike V.view q') {s s' : Statement F N} (hs : d.compile config q = .ok s)
    (hs' : d.compile config q' = .ok s') :
    ∃ l l' : Lowered F N, l.Alike l' ∧ d.assemble config q l = .ok s ∧
      d.assemble config q' l' = .ok s' := by
  obtain ⟨l, hl, hs⟩ := exists_lowering_of_compile hs
  obtain ⟨l', hl', hs'⟩ := exists_lowering_of_compile hs'
  exact ⟨l, l', T.alike_of_lowering h hl hl', hs, hs'⟩

end Dialect

end PortableQuery
