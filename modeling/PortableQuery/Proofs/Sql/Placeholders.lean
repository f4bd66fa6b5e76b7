import PortableQuery.Proofs.Sql.Filter
import PortableQuery.Proofs.Statement.Mention

set_option autoImplicit false

/-!
# Placeholders of SQL statements

The placeholders of a statement are those of its filter, and these are numbered from one on, in the
order in which the operands were bound. An equality with null takes none.
-/

namespace PortableQuery.Sql

open Lexer

variable {schema : Option String}

/-! ## Predicates -/

theorem mentions_identifier (name : String) : Mentions quotes (identifier name) [] := by
  obtain ⟨t, ht, hn⟩ := exists_spells_identifier name
  have hread := hn.read []
  refine ⟨[t], ht, ?_⟩
  cases t with
  | name | word => rfl
  | text | parameter | number | sign => cases hread

theorem placed : Placed quotes .dollar := fun _ n =>
  mentions_of_spells (spells_placeholder n)

/-- Every operand is bound but the null of an equality. -/
def bindsOperand (a : Comparison Value) : Bool := !(a.operator == .equals && a.value.isNull)

theorem filter_bindsOperand {a : Comparison Value}
    (h : a.operator = .equals → a.value.isNull = false) :
    (Comparison.operands Value.items? a).filter bindsOperand =
      Comparison.operands Value.items? a := by
  rw [List.filter_eq_self]
  intro x hx
  unfold Comparison.operands at hx
  split at hx
  · rcases List.mem_pair.mp hx with rfl | rfl <;> rfl
  · obtain ⟨v, -, rfl⟩ := List.mem_map.mp hx
    rfl
  · obtain rfl := List.mem_singleton.mp hx
    by_cases ho : x.operator = .equals
    · simp [bindsOperand, h ho]
    · simp [bindsOperand, ho]

theorem closes_comparison {o : Operator} (hb : o ≠ .between) (hi : o ≠ .oneOf) :
    Closes quotes (" " ++ comparison o ++ " ") [comparisonToken o] := by
  cases o <;> first | rfl | contradiction

theorem mentions_comparison {o : Operator} (hb : o ≠ .between) (hi : o ≠ .oneOf)
    (field text : String) {ps : List String} (h : Mentions quotes text ps) :
    Mentions quotes (identifier field ++ " " ++ comparison o ++ " " ++ text) ps := by
  have hnone : [comparisonToken o].filterMap Token.placeholder? = [] := by cases o <;> rfl
  exact (mentions_identifier field).compared (closes_comparison hb hi) hnone h

theorem mentions_between (field : String) {l u : String} {ps qs : List String}
    (hl : Mentions quotes l ps) (hu : Mentions quotes u qs) :
    Mentions quotes (identifier field ++ " BETWEEN " ++ l ++ " AND " ++ u) (ps ++ qs) := by
  have hbetween : Closes quotes " BETWEEN " [.word "BETWEEN"] := rfl
  have hand : Closes quotes " AND " [.word "AND"] := rfl
  have htext : identifier field ++ " BETWEEN " ++ l ++ " AND " ++ u =
      identifier field ++ (" BETWEEN " ++ (l ++ (" AND " ++ u))) := by
    simp only [String.append_assoc]
  have hbounds := hl.append (hand.adds_append rfl rfl hu)
  rw [htext]
  exact (mentions_identifier field).restricted hbetween rfl rfl hbounds

theorem mentions_null (field : String) : Mentions quotes (identifier field ++ " IS NULL") [] := by
  have hnull : Adds quotes " IS NULL" [] := ⟨⟨[.word "IS", .word "NULL"], rfl, rfl⟩, .inr rfl⟩
  exact (mentions_identifier field).append hnull

variable {config : CompilerConfig} {entity : String}

variable (schema entity) in
/-- From one binder to another the operands of a comparison are bound, and the text has their
placeholders. -/
def Binds (a : Comparison Value) (b : Binder Value) (text : String) (b' : Binder Value) : Prop :=
  ∃ us, b' = b.extend us ∧
    List.Forall₂ ((dialect (Except QueryError) schema).Bound (fun _ v => v) entity)
      ((Comparison.operands Value.items? a).filter bindsOperand) us ∧
    Mentions quotes text (placeholdersFrom .dollar b.nextOrdinal us)

theorem binds_single {o : Operator} (hb : o ≠ .between) (hi : o ≠ .oneOf) {field text : String}
    {v : Value} {b b' : Binder Value} (hstyle : b.style = .dollar)
    (hbound : List.Forall₂ ((dialect (Except QueryError) schema).Bound (fun _ v => v) entity)
      (Comparison.operands Value.items? ⟨o, field, v⟩) [⟨field, v⟩])
    (h : lowerPredicate ⟨o, field, identifier field, .single v⟩ b = .ok (text, b')) :
    Binds schema entity ⟨o, field, v⟩ b text b' := by
  by_cases hnull : o = .equals ∧ v = .null
  · obtain ⟨rfl, rfl⟩ := hnull
    obtain ⟨rfl, rfl⟩ := Prod.mk.inj (Except.ok.inj h)
    exact ⟨[], b.extend_nil.symm, .nil, mentions_null field⟩
  · obtain ⟨ho, hv, -⟩ | ⟨p, hp, rfl⟩ := lowerPredicate_single hb hi h
    · exact absurd ⟨ho, hv⟩ hnull
    · obtain ⟨rfl, rfl⟩ := Binder.bind_eq_ok hp
      refine ⟨_, rfl, ?_, ?_⟩
      · rw [filter_bindsOperand]
        · exact hbound
        · intro ho
          rw [← Bool.not_eq_true, Value.isNull_iff]
          exact fun hv => hnull ⟨ho, hv⟩
      · rw [hstyle]
        exact mentions_comparison hb hi field _ (placed _ _)

/-- **A predicate binds its operands, and has their placeholders.** -/
theorem binds_predicate {o : Operator} {e : Element} {p : Predicate Value} {b b' : Binder Value}
    {text : String} (hp : (dialect (Except QueryError) schema).predicate config entity o e = .ok p)
    (hl : lowerPredicate p b = .ok (text, b')) (hb : b.style = .dollar) :
    Binds schema entity ⟨o, e.name, e.value⟩ b text b' := by
  obtain ⟨-, x, hx, rfl⟩ := Dialect.converts_of_predicate_eq_ok hp
  have hbound := hx.bound fun _ v => v
  generalize e.value = v at hx hbound
  cases hx with
  | range hlower hupper =>
    obtain ⟨rfl, rfl⟩ := Binder.bindPair_eq_ok
      (fun l u => identifier e.name ++ " BETWEEN " ++ l ++ " AND " ++ u) hl
    rw [Binds, filter_bindsOperand (by simp)]
    refine ⟨_, rfl, hbound, ?_⟩
    rw [hb]
    exact mentions_between e.name (placed _ _) (placed _ _)
  | choice _ _ hns =>
    obtain ⟨rfl, rfl⟩ := Binder.bindList_eq_ok
      (fun list => identifier e.name ++ " IN (" ++ list ++ ")") hl
    rw [Binds, filter_bindsOperand (by simp)]
    refine ⟨_, rfl, hbound, ?_⟩
    rw [hb]
    exact (mentions_identifier e.name).chosen (mentions_placeholders placed _ _)
  | pattern hn =>
    obtain rfl := eq_of_toNative_eq_ok hn
    exact binds_single (by decide) (by decide) hb hbound hl
  | value hbetween honeOf _ hn =>
    obtain rfl := eq_of_toNative_eq_ok hn
    exact binds_single hbetween honeOf hb hbound hl

/-- **Predicates, joins and negations use the operands in their order.** -/
def binding (schema : Option String) : (dialect (Except QueryError) schema).Binding where
  binds := bindsOperand
  translate _ v := v
  uses n us text := Mentions quotes text (placeholdersFrom .dollar n us)
  predicate := binds_predicate
  join {c _ _ _ _} _ hfs hf := by
    obtain rfl := Except.ok.inj hf
    exact mentions_join c hfs
  negate hf hg := by
    obtain rfl := Except.ok.inj hg
    exact hf.negated

/-! ## Statements -/

theorem mentions_qualified (schema : Option String) (table : String) :
    Mentions quotes (qualified schema table) [] := by
  cases schema with
  | none => exact mentions_identifier table
  | some s =>
    have hdot : Closes quotes "." [.sign "."] := rfl
    rw [qualified, String.append_assoc]
    exact (mentions_identifier s).restricted hdot rfl rfl (mentions_identifier table)

theorem adds_whereClause {filter : Option String} {us : List (Named Value)}
    (h : (binding schema).UsedBy us filter) :
    Adds quotes (whereClause filter) (placeholdersFrom .dollar 1 us) := by
  have hwhere : Closes quotes " WHERE " [.word "WHERE"] := rfl
  exact adds_clause (fun _ _ huses => huses) hwhere rfl rfl rfl (fun _ => rfl) h

theorem mentions_sortKey (k : SortKey) :
    Mentions quotes (identifier k.field ++ " " ++ directionWord k.direction) [] := by
  apply (mentions_identifier k.field).followed
  cases k.direction <;> rfl

theorem adds_orderClause (sorts : List SortKey) : Adds quotes (orderClause sorts) [] := by
  cases sorts with
  | nil => exact adds_empty
  | cons k ks =>
    have horder : Closes quotes " ORDER BY " [.word "ORDER", .word "BY"] := rfl
    exact horder.adds_append rfl rfl (mentions_list fun k _ => mentions_sortKey k)

theorem adds_countClause {keyword : String} (n : UInt64)
    (h : Closes quotes (" " ++ keyword ++ " ") [.word keyword])
    (hcut : StartsCutting (" " ++ keyword ++ " ")) :
    Adds quotes (countClause keyword n) [] := by
  unfold countClause
  split
  · have hcount : Spells quotes (toString n) [.number n.toNat] := spells_number n.toNat
    exact h.adds_append hcut rfl (mentions_of_spells hcount)
  · exact adds_empty

/-- **A statement has the placeholders of its filter, and no others.** -/
theorem mentions_assemble {q : Query} {l : Lowered String Value} {us : List (Named Value)}
    (h : (binding schema).UsedBy us l.filter) :
    Mentions quotes (assemble schema q l).statement (placeholdersFrom .dollar 1 us) := by
  have hselect : Closes quotes "SELECT " [.word "SELECT"] := rfl
  have hfrom : Closes quotes " FROM " [.word "FROM"] := rfl
  have hlimit : Adds quotes (countClause "LIMIT" q.limit) [] := adds_countClause _ rfl rfl
  have hoffset : Adds quotes (countClause "OFFSET" q.skip) [] := adds_countClause _ rfl rfl
  have htable := ((((mentions_qualified schema q.entity).append (adds_whereClause h)).append
    (adds_orderClause q.sorts)).append hlimit).append hoffset
  have hbody := (mentions_columns mentions_identifier q.projection).restricted hfrom rfl rfl htable
  have hstatement := hselect.mentions_append hbody
  simp only [List.append_nil, List.nil_append, ← String.append_assoc] at hstatement
  exact hstatement

/-- **The parameters of a compiled statement are its operands but for nulls of equalities, in order,
and its placeholders are numbered in that order.** -/
theorem exists_of_compile {q : Query} {s : Statement String Value}
    (h : (dialect (Except QueryError) schema).compile config q = .ok s) :
    ∃ us, List.Forall₂ ((dialect (Except QueryError) schema).Bound (fun _ v => v) q.entity)
        ((operandsOf q.condition).filter bindsOperand) us ∧
      s.parameters = us.map (fun u => ⟨none, u.value⟩) ∧
      placeholders? quotes s.statement =
        some ((List.range' 1 us.length).map fun i => "$" ++ toString i) := by
  obtain ⟨l, hl, hs⟩ := Dialect.exists_lowering_of_compile h
  obtain rfl := Except.ok.inj hs
  have hrest := Dialect.restLowered_of_lowering rfl hl
  obtain ⟨us, hus, hbound, hused⟩ := (binding schema).exists_of_restLowered hrest
  refine ⟨us, hbound, ?_, ?_⟩
  · rw [← parametersFrom_eq_map .dollar (fun _ _ => rfl) 1]
    exact hus
  · rw [← placeholdersFrom_dollar, placeholders?_eq_some]
    exact mentions_assemble hused

end PortableQuery.Sql
