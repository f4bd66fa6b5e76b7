import PortableQuery.Proofs.Document.Filter
import PortableQuery.Proofs.Lowering.Operands

set_option autoImplicit false

/-!
# Operands of document filters

A filter holds its values itself, so what is bound is a record of them: the operands that are read
out of a filter, from left to right, are its parameters.
-/

namespace PortableQuery.Document

variable {config : CompilerConfig} {entity : String}

/-! ## What is bound -/

theorem bind_of_single {o : Operator} (hb : o ≠ .between) (hi : o ≠ .oneOf) {name path : String}
    {n ops : Json} {b b' : Binder Json}
    (h : operators ⟨o, name, path, .single n⟩ b = .ok (ops, b')) :
    ∃ x, b.bind name (operandOf o n) = .ok (x, b') := by
  by_cases hl : o = .like
  · subst hl
    cases n with
    | string s =>
      obtain ⟨⟨x, b₁⟩, hx, h⟩ := bind_eq_ok.mp h
      obtain ⟨-, rfl⟩ := Prod.mk.inj (pure_eq_ok.mp h)
      exact ⟨x, hx⟩
    | null | bool | int | double | array | object => cases h
  · have hbind : operators ⟨o, name, path, .single n⟩ b =
        (b.bind name (operandOf o n) >>= fun r => pure (.single (comparison o) n, r.2)) := by
      cases o <;> first | contradiction | rfl
    obtain ⟨⟨x, b₁⟩, hx, h⟩ := bind_eq_ok.mp (hbind ▸ h)
    obtain ⟨-, rfl⟩ := Prod.mk.inj (pure_eq_ok.mp h)
    exact ⟨x, hx⟩

/-- **A predicate binds its operands.** -/
theorem binds_predicate {o : Operator} {e : Element} {p : Predicate Json} {b b' : Binder Json}
    {f : Json} (hp : (dialect (Except QueryError)).predicate config entity o e = .ok p)
    (hl : lowerPredicate p b = .ok (f, b')) :
    ∃ us, b' = b.extend us ∧ List.Forall₂ ((dialect (Except QueryError)).Bound operandOf entity)
      ((Comparison.operands Value.items? ⟨o, e.name, e.value⟩).filter fun _ => true) us := by
  obtain ⟨-, x, hx, rfl⟩ := Dialect.converts_of_predicate_eq_ok hp
  have hbound := hx.bound operandOf
  obtain ⟨_, -, hl⟩ := bind_eq_ok.mp hl
  obtain ⟨⟨ops, b₁⟩, hops, hl⟩ := bind_eq_ok.mp hl
  obtain ⟨-, rfl⟩ := Prod.mk.inj (pure_eq_ok.mp hl)
  generalize e.value = v at hx hbound
  rw [List.filter_true]
  cases hx with
  | range hlower hupper =>
    obtain ⟨⟨ps, b₂⟩, hbind, hops⟩ := bind_eq_ok.mp hops
    obtain ⟨-, rfl⟩ := Prod.mk.inj (pure_eq_ok.mp hops)
    exact ⟨_, (Binder.bindAll_eq_ok hbind).2, hbound⟩
  | choice _ _ hns =>
    obtain ⟨⟨ps, b₂⟩, hbind, hops⟩ := bind_eq_ok.mp hops
    obtain ⟨-, rfl⟩ := Prod.mk.inj (pure_eq_ok.mp hops)
    exact ⟨_, (Binder.bindAll_eq_ok hbind).2, hbound⟩
  | pattern hn =>
    obtain ⟨x, hbind⟩ := bind_of_single (by decide) (by decide) hops
    exact ⟨_, (Binder.bind_eq_ok hbind).2, hbound⟩
  | value hbetween honeOf _ hn =>
    obtain ⟨x, hbind⟩ := bind_of_single hbetween honeOf hops
    exact ⟨_, (Binder.bind_eq_ok hbind).2, hbound⟩

/-- **Predicates bind their operands in their order.** -/
def binding : (dialect (Except QueryError)).Binding where
  binds _ := true
  translate := operandOf
  uses _ _ _ := True
  predicate hp hl _ := by
    obtain ⟨us, hb', hus⟩ := binds_predicate hp hl
    exact ⟨us, hb', hus, trivial⟩
  join _ _ _ := trivial
  negate _ _ := trivial

/-! ## What is read -/

/-- The items of an array. -/
def items? : Json → Option (List Json)
  | .array items => some items
  | _ => none

/-- The operands of a filter as it is read, from left to right. -/
def operandsOf (g : Formula (Comparison Json)) : List Json :=
  (g.atoms.flatMap (Comparison.operands items?)).map (·.value)

theorem encode?_eq_some_iff (scope : Scope) {v : Value} {j : Json} :
    encode? v = some j ↔ encode scope v = .ok j := by
  refine ⟨fun h => ?_, encode?_eq_some⟩
  rw [encode?] at h
  cases hv : encode ⟨"", ""⟩ v with
  | error e =>
    rw [hv] at h
    cases h
  | ok j' =>
    rw [hv] at h
    obtain rfl : j' = j := Option.some.inj h
    exact encode_of_scope v _ _ _ hv

theorem encode?_list_eq_some {vs : List Value} {j : Json} :
    encode? (.list vs) = some j ↔
      ∃ js, List.Forall₂ (fun v j => encode? v = some j) vs js ∧ j = .array js := by
  rw [encode?_eq_some_iff ⟨"", ""⟩, encode, bind_eq_ok]
  simp only [encodeItems_eq_ok, ← encode?_eq_some_iff ⟨"", ""⟩, pure_eq_ok, eq_comm (a := j)]

theorem items?_of_encode? {v : Value} {j : Json} (hv : v.items? = none) (h : encode? v = some j) :
    items? j = none := by
  have h := (encode?_eq_some_iff ⟨"", ""⟩).mp h
  cases v with
  | list => cases hv
  | null | bool | int | decimal | text | bytes | uuid | timestamp | date =>
    rw [← Except.ok.inj h]
    rfl
  | double d =>
    rw [← Except.ok.inj h]
    cases d with
    | finite | nan => rfl
    | infinite s => cases s <;> rfl
  | map entries =>
    obtain ⟨ms, -, h⟩ := bind_eq_ok.mp h
    rw [← pure_eq_ok.mp h]
    rfl
  | udt => cases h

theorem map_encode?_eq {vs : List Value} {js : List Json}
    (h : List.Forall₂ (fun v j => encode? v = some j) vs js) : js.map some = vs.map encode? := by
  rw [← List.forall₂_eq_eq_eq, List.forall₂_map_left_iff, List.forall₂_map_right_iff]
  exact h.flip.imp fun _ _ hv => hv.symm

theorem operands_of_written {a : Comparison Value} {a' : Comparison Json}
    (h : written config a = a'.map some) :
    (Comparison.operands items? a').map (fun x => some x.value) =
      (Comparison.operands Value.items? a).map
        fun x => (encode? x.value).map (operandOf x.operator) := by
  obtain ⟨o, field, v⟩ := a
  obtain ⟨o', path, j⟩ := a'
  obtain ⟨rfl, -, hv⟩ : o = o' ∧ _ ∧ (encode? v).map (operandOf o) = some j :=
    Comparison.mk.inj h
  by_cases hsingle : o ≠ .between ∧ o ≠ .oneOf
  · rw [Comparison.operands_of_single _ hsingle.1 hsingle.2,
      Comparison.operands_of_single _ hsingle.1 hsingle.2]
    exact congrArg (fun x => [x]) hv.symm
  have hsame : operandOf o = id := by
    funext j
    cases o <;> first | rfl | simp at hsingle
  rw [hsame, Option.map_id, id] at hv
  cases hitems : v.items? with
  | none =>
    have hj := items?_of_encode? hitems hv
    cases o <;> simp [Comparison.operands, hitems, hj, hv, hsame]
  | some items =>
    obtain rfl := Value.items?_eq_some.mp hitems
    obtain ⟨js, hjs, rfl⟩ := encode?_list_eq_some.mp hv
    cases o with
    | oneOf =>
      have hmap := map_encode?_eq hjs
      simpa [Comparison.operands, items?, Value.items?, hsame, Function.comp_def] using hmap
    | between =>
      -- lists of other lengths than two stand for themselves
      cases hjs with
      | nil => simp [Comparison.operands, items?, Value.items?, hv, hsame]
      | cons hlower hjs =>
        cases hjs with
        | nil => simp [Comparison.operands, items?, Value.items?, hv, hsame]
        | cons hupper hjs =>
          cases hjs with
          | nil => simp [Comparison.operands, items?, Value.items?, hlower, hupper, hsame]
          | cons => simp [Comparison.operands, items?, Value.items?, hv, hsame]
    | equals | greater | greaterOrEqual | less | lessOrEqual | like => simp at hsingle

theorem map_value_of_bound {ops : List (Comparison Value)} {us : List (Named Json)}
    (h : List.Forall₂ ((dialect (Except QueryError)).Bound operandOf entity) ops us) :
    us.map (fun u => some u.value) =
      ops.map fun a => (encode? a.value).map (operandOf a.operator) := by
  rw [← List.forall₂_eq_eq_eq, List.forall₂_map_left_iff, List.forall₂_map_right_iff]
  refine h.flip.imp fun u a hbound => ?_
  obtain ⟨n, hn, hu⟩ := map_eq_ok.mp hbound.2
  rw [encode?_eq_some (encode_of_toNative hn), Option.map_some, hu]

theorem map_operands_of_written {as : List (Comparison Value)} {bs : List (Comparison Json)}
    (h : as.map (written config) = bs.map (Comparison.map some)) :
    (bs.flatMap (Comparison.operands items?)).map (fun x => some x.value) =
      (as.flatMap (Comparison.operands Value.items?)).map
        fun x => (encode? x.value).map (operandOf x.operator) := by
  induction as generalizing bs with
  | nil =>
    obtain rfl := List.map_eq_nil_iff.mp h.symm
    rfl
  | cons a as ih =>
    cases bs with
    | nil => cases h
    | cons b bs =>
      obtain ⟨hb, hbs⟩ := List.cons.inj h
      rw [List.flatMap_cons, List.flatMap_cons, List.map_append, List.map_append,
        operands_of_written hb, ih hbs]

/-- **The operands that are read are those that were bound.** -/
theorem operandsOf_eq {c : Condition} {g : Formula (Comparison Json)} {us : List (Named Json)}
    (hg : c.formula.map (written config) = g.map (Comparison.map some))
    (hus : List.Forall₂ ((dialect (Except QueryError)).Bound operandOf entity) c.operands us) :
    operandsOf g = us.map (·.value) := by
  have hatoms : c.formula.atoms.map (written config) = g.atoms.map (Comparison.map some) := by
    rw [← Formula.atoms_map, ← Formula.atoms_map, hg]
  have hvalues := (map_operands_of_written hatoms).trans (map_value_of_bound hus).symm
  have hsome : Function.Injective (some : Json → Option Json) := fun _ _ h => Option.some.inj h
  apply List.map_injective_iff.mpr hsome
  rw [operandsOf, List.map_map, List.map_map]
  exact hvalues

/-- **The parameters of a compiled command are its operands, in order, and so are the operands that
are read out of its filter.** -/
theorem exists_of_compile {q : Query} {s : Statement Json Json}
    (h : (dialect (Except QueryError)).compile config q = .ok s) :
    ∃ us, List.Forall₂ ((dialect (Except QueryError)).Bound operandOf q.entity)
        (PortableQuery.operandsOf q.condition) us ∧
      s.parameters = us.map (fun u => ⟨none, u.value⟩) ∧ (s.filter = none → us = []) ∧
      ∀ f ∈ s.filter, ∃ g, (∀ t, Reads f t ↔ t = g) ∧ operandsOf g = us.map (·.value) := by
  obtain ⟨l, hl, hs⟩ := Dialect.exists_lowering_of_compile h
  have hrest := Dialect.restLowered_of_lowering rfl hl
  obtain ⟨us, hus, hbound, hused⟩ := binding.exists_of_restLowered hrest
  have hassembled : s.parameters = l.parameters ∧ s.filter = l.filter := by
    obtain ⟨_, _, hs⟩ := bind_eq_ok.mp hs
    obtain rfl := pure_eq_ok.mp hs
    exact ⟨rfl, rfl⟩
  change List.Forall₂ _ ((PortableQuery.operandsOf q.condition).filter fun _ => true) us at hbound
  rw [List.filter_true] at hbound
  refine ⟨us, hbound, ?_, ?_, ?_⟩
  · rw [← parametersFrom_eq_map .inline (fun _ _ => rfl) 1, hassembled.1]
    exact hus
  · rw [hassembled.2]
    intro hnone
    rw [hnone] at hused
    exact hused
  · rw [hassembled.2]
    generalize hcondition : q.condition = c at hrest hbound
    generalize l.filter = filter, l.parameters = ps at hrest
    cases hrest with
    | none => nofun
    | @some c f b hc =>
      rintro f' hf'
      obtain rfl : f = f' := Option.some.inj hf'
      have hcap := Dialect.firstUnsupported_of_compile hcondition h
      obtain ⟨g, hg, hmeans⟩ := reads_lowerCondition hcap hc
      rw [PortableQuery.operandsOf, Option.toList_some, List.flatMap_singleton] at hbound
      exact ⟨g, hg, operandsOf_eq hmeans hbound⟩

end PortableQuery.Document
