import PortableQuery.Proofs.Lowering.Alike
import PortableQuery.Proofs.Lowering.Refusal

set_option autoImplicit false

/-!
# The first fault of a query

The predicate whose values become keys is visited first, and then the nodes of what is left, parents
before children and children from left to right. Where binding, joining and negating cannot fail,
every visit is at fault by itself or not at all, and the first fault is the one that is reported.
-/

namespace PortableQuery

/-! ## Errors of computations -/

section Error

variable {ε α β : Type}

/-- The error of a computation, if it fails. -/
def error? : Except ε α → Option ε
  | .error e => some e
  | .ok _ => none

@[simp] theorem error?_ok (a : α) : error? (.ok a : Except ε α) = none := rfl

@[simp] theorem error?_error (e : ε) : error? (.error e : Except ε α) = some e := rfl

theorem error?_eq_some {x : Except ε α} {e : ε} : error? x = some e ↔ x = .error e := by
  cases x <;> simp

theorem error?_eq_none {x : Except ε α} : error? x = none ↔ ∃ a, x = .ok a := by
  cases x <;> simp

theorem error?_bind (x : Except ε α) (f : α → Except ε β) :
    error? (x >>= f) = match x with
      | .error e => some e
      | .ok a => error? (f a) := by
  cases x <;> rfl

theorem error?_map (x : Except ε α) (f : α → β) : error? (x.map f) = error? x := by
  cases x <;> rfl

theorem error?_bind_of_ok {x : Except ε α} {f : α → Except ε β}
    (hf : ∀ a, x = .ok a → error? (f a) = none) : error? (x >>= f) = error? x := by
  cases x with
  | error e => rfl
  | ok a => exact hf a rfl

end Error

/-! ## Values without names -/

namespace Binder

variable {N α : Type} {b b' : Binder N} {field : String}

/-- The values of the binder have no names. -/
def Unnamed (b : Binder N) : Prop := ∀ sigil, b.style ≠ .named sigil

theorem Unnamed.exists_bind (hb : b.Unnamed) (field : String) (v : N) :
    ∃ r, b.bind field v = .ok r ∧ r.2.Unnamed := by
  cases hs : b.style with
  | named sigil => exact absurd hs (hb sigil)
  | dollar | question | inline =>
    refine ⟨_, by simp only [bind, hs]; rfl, ?_⟩
    exact hb

theorem Unnamed.exists_bindAll (hb : b.Unnamed) (field : String) (vs : List N) :
    ∃ r, b.bindAll field vs = .ok r ∧ r.2.Unnamed := by
  induction vs generalizing b with
  | nil => exact ⟨_, rfl, hb⟩
  | cons v vs ih =>
    obtain ⟨⟨p, b₁⟩, hp, hb₁⟩ := hb.exists_bind field v
    obtain ⟨⟨ps, b₂⟩, hps, hb₂⟩ := ih hb₁
    refine ⟨(p :: ps, b₂), ?_, hb₂⟩
    rw [bindAll, hp]
    dsimp only [Bind.bind, Except.bind]
    rw [hps]
    rfl

/-- What is bound is no fault, so the faults are those of what follows. -/
theorem Unnamed.error?_bind_congr (hb : b.Unnamed) (hb' : b'.Unnamed) {v : N}
    {f f' : String × Binder N → Except QueryError α}
    (hf : ∀ r r', r.2.Unnamed → r'.2.Unnamed → error? (f r) = error? (f' r')) :
    error? (b.bind field v >>= f) = error? (b'.bind field v >>= f') := by
  obtain ⟨r, hr, hunnamed⟩ := hb.exists_bind field v
  obtain ⟨r', hr', hunnamed'⟩ := hb'.exists_bind field v
  rw [hr, hr']
  exact hf r r' hunnamed hunnamed'

theorem Unnamed.error?_bindAll_congr (hb : b.Unnamed) (hb' : b'.Unnamed) {vs : List N}
    {f f' : List String × Binder N → Except QueryError α}
    (hf : ∀ r r', r.2.Unnamed → r'.2.Unnamed → error? (f r) = error? (f' r')) :
    error? (b.bindAll field vs >>= f) = error? (b'.bindAll field vs >>= f') := by
  obtain ⟨r, hr, hunnamed⟩ := hb.exists_bindAll field vs
  obtain ⟨r', hr', hunnamed'⟩ := hb'.exists_bindAll field vs
  rw [hr, hr']
  exact hf r r' hunnamed hunnamed'

end Binder

namespace Dialect

variable {F N : Type} {d : Dialect (Except QueryError) F N} {config : CompilerConfig}
  {entity : String}

/-! ## Lowering before assembling -/

variable (d config) in
/-- What is assembled to the statement of a query. -/
def lowered (q : Query) : Except QueryError (Lowered F N) :=
  match d.badPaging q with
  | some operation => .error (.unsupported d.name operation)
  | none => match q.condition with
    | none => .ok .empty
    | some c => match d.capabilities.firstUnsupported c with
      | some operation => .error (.unsupported d.name operation)
      | none => d.lowerRoot config q.entity c

theorem compile_eq_bind (config : CompilerConfig) (q : Query) :
    d.compile config q = d.lowered config q >>= d.assemble config q := by
  rw [compile_eq, lowered]
  cases d.badPaging q with
  | some operation => rfl
  | none =>
    cases q.condition with
    | none => rfl
    | some c => dsimp only; cases d.capabilities.firstUnsupported c <;> rfl

/-- A walk depends on the paths of fields, and on nothing else that is configured. -/
theorem lowerCondition_congr {config' : CompilerConfig} (hfield : d.field config = d.field config')
    (c : Condition) (b : Binder N) :
    d.lowerCondition config entity c b = d.lowerCondition config' entity c b := by
  induction c using Condition.induct generalizing b with
  | predicate o e => simp only [lowerCondition, predicate, hfield]
  | join c cs ih =>
    have hall (b : Binder N) :
        d.lowerAll config entity cs b = d.lowerAll config' entity cs b := by
      induction cs generalizing b with
      | nil => rfl
      | cons c cs ihs =>
        rw [List.forall_mem_cons] at ih
        simp only [lowerAll, ih.1, ihs ih.2]
    simp only [lowerCondition, hall]
  | not c ih => simp only [lowerCondition, ih]

/-- **A lowering depends on paths, on what is looked up by key, and on the condition and its entity;
the window, the order and the projection are left to the statement.** -/
theorem lowered_congr {config' : CompilerConfig} {q q' : Query}
    (hfield : d.field config = d.field config') (hid : config.idField = config'.idField)
    (hlookup : config.pointLookup = config'.pointLookup) (hpaging : d.badPaging q = d.badPaging q')
    (hcondition : q.condition = q'.condition) (hentity : q.entity = q'.entity) :
    d.lowered config q = d.lowered config' q' := by
  have hkeys (c : Condition) : d.keys config q'.entity c = d.keys config' q'.entity c := by
    cases c with
    | predicate o e => simp only [keys, predicate, hfield]
    | join | not => rfl
  have hrest (rest : List Condition) (b : Binder N) :
      d.lowerRest config q'.entity rest b = d.lowerRest config' q'.entity rest b := by
    rw [lowerRest_eq, lowerRest_eq]
    cases residual rest with
    | none => rfl
    | some c => dsimp only; rw [lowerCondition_congr hfield]
  have hroot (c : Condition) :
      d.lowerRoot config q'.entity c = d.lowerRoot config' q'.entity c := by
    simp only [lowerRoot, keySplit?, hid, hlookup, hkeys, hrest, lowerCondition_congr hfield]
  simp only [lowered, hpaging, hcondition, hentity, hroot]

end Dialect

/-! ## Visits -/

theorem Condition.mem_atoms_join {connective : Connective} {cs : List Condition}
    {a : Comparison Value} :
    a ∈ (join connective cs).formula.atoms ↔ ∃ c ∈ cs, a ∈ c.formula.atoms := by
  rw [formula_join, Formula.atoms_join, List.flatMap_map, List.mem_flatMap]

theorem mem_atoms_residual {cs : List Condition} {a : Comparison Value} :
    (∃ rest, residual cs = some rest ∧ a ∈ rest.formula.atoms) ↔ ∃ c ∈ cs, a ∈ c.formula.atoms := by
  match cs with
  | [] | [_] | _ :: _ :: _ => simp [residual]

theorem Condition.mem_preorder_of_mem_atoms {c : Condition} {a : Comparison Value}
    (h : a ∈ c.formula.atoms) : .predicate a.operator ⟨a.field, a.value⟩ ∈ c.preorder := by
  induction c using Condition.induct with
  | predicate o e =>
    obtain rfl := List.mem_singleton.mp h
    exact List.mem_singleton_self _
  | join c cs ih =>
    obtain ⟨x, hx, ha⟩ := mem_atoms_join.mp h
    rw [preorder_join]
    exact List.mem_cons_of_mem _ (List.mem_flatMap.mpr ⟨x, hx, ih x hx ha⟩)
  | not c ih =>
    rw [preorder_not]
    exact List.mem_cons_of_mem _ (ih h)

theorem Condition.SplitsAt.mem_atoms {idField : String} {c : Condition} {split : KeySplit}
    (h : c.SplitsAt idField split) {a : Comparison Value} (ha : a ∈ c.formula.atoms) :
    split.key = .predicate a.operator ⟨a.field, a.value⟩ ∨
      ∃ rest, residual split.rest = some rest ∧ a ∈ rest.formula.atoms := by
  have hatom {k : Condition} {v : Value} (hk : k.Wants idField v) (ha : a ∈ k.formula.atoms) :
      k = .predicate a.operator ⟨a.field, a.value⟩ := by
    cases hk <;> obtain rfl := List.mem_singleton.mp ha <;> rfl
  cases h with
  | root hk => exact .inl (hatom hk ha)
  | part _ hk =>
    rw [mem_atoms_residual]
    obtain ⟨x, hx, hmem⟩ := mem_atoms_join.mp ha
    obtain hx | hx := List.mem_append.mp hx
    · exact .inr ⟨x, List.mem_append_left _ hx, hmem⟩
    · obtain rfl | hx := List.mem_cons.mp hx
      · exact .inl (hatom hk hmem)
      · exact .inr ⟨x, List.mem_append_right _ hx, hmem⟩

/-- A step of a lowering: a predicate whose values become keys, or a node that is lowered. -/
inductive Visit where
  | key (c : Condition)
  | node (c : Condition)

namespace Dialect

variable {F N : Type} {d : Dialect (Except QueryError) F N} {config : CompilerConfig}
  {entity : String}

variable (d config) in
/-- What is visited for a condition: the predicate that keys are split off with, and the nodes of
what is left. -/
def visits (c : Condition) : List Visit :=
  (d.keySplit? config c).toList.map (fun split => .key split.key) ++
    (d.remainder config (some c)).toList.flatMap fun rest => rest.preorder.map .node

theorem node_mem_visits {c rest : Condition} (hrest : d.remainder config (some c) = some rest)
    {a : Comparison Value} (ha : a ∈ rest.formula.atoms) :
    .node (.predicate a.operator ⟨a.field, a.value⟩) ∈ d.visits config c := by
  refine List.mem_append_right _ (List.mem_flatMap.mpr ⟨rest, ?_, ?_⟩)
  · rw [hrest]
    exact List.mem_singleton_self rest
  · exact List.mem_map_of_mem (Condition.mem_preorder_of_mem_atoms ha)

/-- Every predicate of a condition is visited, at last as a node of what is left. -/
theorem mem_visits {c : Condition} {a : Comparison Value} (ha : a ∈ c.formula.atoms) :
    .key (.predicate a.operator ⟨a.field, a.value⟩) ∈ d.visits config c ∨
      .node (.predicate a.operator ⟨a.field, a.value⟩) ∈ d.visits config c := by
  cases hsplit : d.keySplit? config c with
  | none => exact .inr (node_mem_visits (by rw [remainder, Option.bind_some, hsplit]) ha)
  | some split =>
    obtain hkey | ⟨rest, hrest, hmem⟩ := (splitsAt_of_keySplit? hsplit).mem_atoms ha
    · refine .inl (List.mem_append_left _ (List.mem_map.mpr ⟨split, ?_, by rw [hkey]⟩))
      rw [hsplit]
      exact List.mem_singleton_self split
    · exact .inr (node_mem_visits (by rw [remainder, Option.bind_some, hsplit]; exact hrest) hmem)

variable (d config entity) in
/-- What is wrong with a node, whatever stands below it and was bound before it. -/
def nodeFault? : Condition → Option QueryError
  | .predicate o e =>
    error? (d.predicate config entity o e >>= fun p => d.lower p { style := d.style })
  | .join c cs => if cs.isEmpty then some (.invalid (.emptyJoin c)) else none
  | .not _ => none

variable (d config entity) in
/-- What is wrong with a visit by itself. -/
def fault? : Visit → Option QueryError
  | .key c => error? (d.keys config entity c)
  | .node c => d.nodeFault? config entity c

theorem error?_lowerAll (B : d.Binding) {cs : List Condition}
    (hcs : ∀ c ∈ cs, ∀ b : Binder N, b.style = d.style →
      error? (d.lowerCondition config entity c b) =
        c.preorder.findSome? (d.nodeFault? config entity))
    {b : Binder N} (hb : b.style = d.style) :
    error? (d.lowerAll config entity cs b) =
      (cs.flatMap Condition.preorder).findSome? (d.nodeFault? config entity) := by
  induction cs generalizing b with
  | nil => rfl
  | cons c cs ih =>
    rw [List.forall_mem_cons] at hcs
    rw [List.flatMap_cons, List.findSome?_append, ← hcs.1 b hb, lowerAll, error?_bind]
    cases hc : d.lowerCondition config entity c b with
    | error e => rfl
    | ok r =>
      obtain ⟨us, hextend, -⟩ := B.exists_of_lowerCondition hc hb
      have hstyle : r.2.style = d.style := by rw [hextend, Binder.extend_style, hb]
      exact (error?_bind_of_ok fun _ _ => rfl).trans (ih hcs.2 hstyle)

/-- A dialect binds, joins and negates without a fault, so that nothing before a predicate is a
fault of it. -/
structure Steady (B : d.Binding) : Prop where
  lower {config : CompilerConfig} {entity : String} {o : Operator} {e : Element} {p : Predicate N}
    {b : Binder N} (hp : d.predicate config entity o e = .ok p) (hb : b.style = d.style) :
    error? (d.lower p b) = error? (d.lower p { style := d.style })
  join {c : Connective} (fs : List F) (hc : d.capabilities.joins c = true) :
    error? (d.join c fs) = none
  negate {config : CompilerConfig} {entity : String} {c : Condition} {b b' : Binder N} {f : F}
    (hc : d.capabilities.badNegation c = none)
    (hf : d.lowerCondition config entity c b = .ok (f, b')) : error? (d.negate f) = none

namespace Steady

variable {B : d.Binding} (hd : Steady B)

include hd

/-- **A walk over what can be expressed fails with the first fault of its nodes, and succeeds if
there is none.** -/
theorem error?_lowerCondition {c : Condition} (hc : d.capabilities.firstUnsupported c = none)
    {b : Binder N} (hb : b.style = d.style) :
    error? (d.lowerCondition config entity c b) =
      c.preorder.findSome? (d.nodeFault? config entity) := by
  induction c using Condition.induct generalizing b with
  | predicate o e =>
    rw [Condition.preorder_predicate, List.findSome?_singleton, nodeFault?, lowerCondition,
      error?_bind, error?_bind]
    cases hp : d.predicate config entity o e with
    | error e => rfl
    | ok p => exact (congrArg error? (ofExcept_eq _)).trans (hd.lower hp hb)
  | join c cs ih =>
    obtain ⟨hjoins, hcs⟩ := Capabilities.firstUnsupported_join_eq_none.mp hc
    rw [Condition.preorder_join, List.findSome?_cons, nodeFault?, lowerCondition]
    split
    · rfl
    · rw [← error?_lowerAll B (fun x hx b hb => ih x hx (hcs x hx) hb) hb]
      refine error?_bind_of_ok ?_
      rintro ⟨fs, b₁⟩ -
      dsimp only
      rw [ofExcept_eq, error?_bind_of_ok fun _ _ => rfl]
      exact hd.join fs hjoins
  | not c ih =>
    obtain ⟨hnegation, hchild⟩ := Capabilities.firstUnsupported_not_eq_none.mp hc
    rw [Condition.preorder_not, List.findSome?_cons, nodeFault?, lowerCondition, ← ih hchild hb]
    refine error?_bind_of_ok ?_
    rintro ⟨f, b₁⟩ hf
    dsimp only
    rw [ofExcept_eq, error?_bind_of_ok fun _ _ => rfl]
    exact hd.negate hnegation hf

/-- **A lowering fails with the first fault of what it visits, and succeeds if there is none.** -/
theorem error?_lowerRoot {c : Condition} (hc : d.capabilities.firstUnsupported c = none) :
    error? (d.lowerRoot config entity c) =
      (d.visits config c).findSome? (d.fault? config entity) := by
  have hnodes (x : Condition) : (x.preorder.map Visit.node).findSome? (d.fault? config entity) =
      x.preorder.findSome? (d.nodeFault? config entity) := List.findSome?_map
  rw [visits, remainder, Option.bind_some, List.findSome?_append, lowerRoot]
  cases hsplit : d.keySplit? config c with
  | none =>
    simp only [Option.toList_none, Option.toList_some, List.map_nil, List.findSome?_nil,
      List.flatMap_singleton, Option.none_or, hnodes]
    rw [← hd.error?_lowerCondition (b := { style := d.style }) hc rfl]
    exact error?_bind_of_ok fun _ _ => rfl
  | some split =>
    have hrest := firstUnsupported_of_keySplit? hsplit hc
    simp only [Option.toList_some, List.map_cons, List.map_nil, List.findSome?_singleton, fault?]
    rw [error?_bind]
    cases d.keys config entity split.key with
    | error e => rfl
    | ok keys =>
      refine (error?_bind_of_ok fun _ _ => rfl).trans ?_
      rw [lowerRest_eq]
      cases hresidual : residual split.rest with
      | none => rfl
      | some x =>
        dsimp only
        rw [error?_map, Option.toList_some, List.flatMap_singleton, hnodes,
          hd.error?_lowerCondition (b := { style := d.style }) (hrest x hresidual) rfl]
        rfl

variable {q : Query} {c : Condition}

/-- **The first fault is reported, if the query is not refused.** -/
theorem compile_eq_error (hq : q.condition = some c) (hpaging : d.badPaging q = none)
    (hcheck : d.capabilities.firstUnsupported c = none) {before behind : List Visit} {v : Visit}
    (hvisits : d.visits config c = before ++ v :: behind)
    (hbefore : ∀ x ∈ before, d.fault? config q.entity x = none) {e : QueryError}
    (hv : d.fault? config q.entity v = some e) : d.compile config q = .error e := by
  have hfirst : (d.visits config c).findSome? (d.fault? config q.entity) = some e := by
    rw [hvisits, List.findSome?_append, List.findSome?_eq_none_iff.mpr hbefore, Option.none_or,
      List.findSome?_cons, hv]
  have hroot : d.lowerRoot config q.entity c = .error e :=
    error?_eq_some.mp ((hd.error?_lowerRoot hcheck).trans hfirst)
  rw [compile_eq, hpaging, hq]
  simp only [hcheck, hroot]
  rfl

/-- **What is compiled is visited without a fault.** -/
theorem fault?_of_compile {s : Statement F N} (hq : q.condition = some c)
    (h : d.compile config q = .ok s) :
    ∀ v ∈ d.visits config c, d.fault? config q.entity v = none := by
  have hcheck := firstUnsupported_of_compile hq h
  have hroot : ∃ l, d.lowerRoot config q.entity c = .ok l := by
    rw [compile_eq, hq] at h
    cases hpaging : d.badPaging q with
    | some operation => rw [hpaging] at h; cases h
    | none =>
      simp only [hpaging, hcheck] at h
      obtain ⟨l, hl, -⟩ := bind_eq_ok.mp h
      exact ⟨l, hl⟩
  rw [← List.findSome?_eq_none_iff, ← hd.error?_lowerRoot hcheck]
  exact error?_eq_none.mpr hroot

end Steady

end Dialect

end PortableQuery
