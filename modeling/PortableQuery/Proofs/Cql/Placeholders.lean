import PortableQuery.Cql.Select
import PortableQuery.Proofs.Sql.Filter
import PortableQuery.Proofs.Statement.Mention

set_option autoImplicit false

/-!
# Placeholders of CQL statements

The placeholders of a statement are those of its filter, one for each operand. They have no names,
so it is their order alone that tells them apart.
-/

namespace PortableQuery.Cql

open Lexer

/-- Names are quoted as in SQL. -/
abbrev quotes : List Lexer.Quote := Sql.quotes

variable {k : Keyspace} {schema : Option (SchemaLookup (Except QueryError))}
  {config : CompilerConfig} {entity : String}

/-! ## Predicates -/

theorem mentions_identifier (name : String) : Mentions quotes (identifier name) [] := by
  unfold identifier
  split
  · next h =>
    obtain ⟨hs, -⟩ := Bool.and_eq_true_iff.mp h
    exact mentions_of_spells (Text.spells_of_isLowerSnake hs)
  · exact mentions_of_spells (Sql.spells_doubleQuoted name)

theorem placed : Placed quotes .question := by
  intro field n
  have hmark : Spells quotes "?" [.sign "?"] := rfl
  exact mentions_of_spells hmark

theorem mentions_between (field : String) {l u : String} {ps qs : List String}
    (hl : Mentions quotes l ps) (hu : Mentions quotes u qs) :
    Mentions quotes
      (identifier field ++ " >= " ++ l ++ " AND " ++ identifier field ++ " <= " ++ u)
      (ps ++ qs) := by
  have hgte : Closes quotes " >= " [.sign ">="] := rfl
  have hlte : Closes quotes " <= " [.sign "<="] := rfl
  have hand : Closes quotes " AND " [.word "AND"] := rfl
  have hlower := (mentions_identifier field).restricted hgte rfl rfl hl
  have hupper := (mentions_identifier field).restricted hlte rfl rfl hu
  have hboth := hlower.append (hand.adds_append rfl rfl hupper)
  simp only [String.append_assoc] at hboth ⊢
  exact hboth

theorem closes_comparison {o : Operator} (hb : o ≠ .between) (hi : o ≠ .oneOf) (hl : o ≠ .like) :
    Closes quotes (" " ++ comparison o ++ " ") [.sign (comparison o)] := by
  cases o <;> first | rfl | contradiction

theorem exists_of_single {o : Operator} (hb : o ≠ .between) (hi : o ≠ .oneOf)
    {name path text : String} {v : Native} {b b' : Binder Native}
    (h : lowerPredicate ⟨o, name, path, .single v⟩ b = .ok (text, b')) :
    o ≠ .like ∧ ∃ x, b.bind name v = .ok (x, b') ∧
      text = path ++ " " ++ comparison o ++ " " ++ x := by
  have hlike : o ≠ .like := by
    rintro rfl
    cases v <;> cases h
  have hnull : v ≠ .null := by
    rintro rfl
    cases o <;> cases h
  have hbind : lowerPredicate ⟨o, name, path, .single v⟩ b =
      (b.bind name v >>= fun r => pure (path ++ " " ++ comparison o ++ " " ++ r.1, r.2)) := by
    cases v <;> first | contradiction | (cases o <;> first | contradiction | rfl)
  obtain ⟨⟨x, b₁⟩, hx, h⟩ := bind_eq_ok.mp (hbind ▸ h)
  obtain ⟨rfl, rfl⟩ := Prod.mk.inj (pure_eq_ok.mp h)
  exact ⟨hlike, x, hx, rfl⟩

/-- **A predicate binds its operands, and has their placeholders.** -/
theorem binds_predicate {o : Operator} {e : Element} {p : Predicate Native}
    {b b' : Binder Native} {text : String}
    (hp : (dialect (m := Except QueryError) k schema).predicate config entity o e = .ok p)
    (hl : lowerPredicate p b = .ok (text, b')) (hb : b.style = .question) :
    ∃ us, b' = b.extend us ∧
      List.Forall₂ ((dialect (m := Except QueryError) k schema).Bound (fun _ v => v) entity)
        ((Comparison.operands Value.items? ⟨o, e.name, e.value⟩).filter fun _ => true) us ∧
      Mentions quotes text (placeholdersFrom .question b.nextOrdinal us) := by
  obtain ⟨-, x, hx, rfl⟩ := Dialect.converts_of_predicate_eq_ok hp
  have hbound := hx.bound fun _ v => v
  generalize e.value = v at hx hbound
  rw [List.filter_true]
  cases hx with
  | range hlower hupper =>
    obtain ⟨rfl, rfl⟩ := Binder.bindPair_eq_ok
      (fun l u => identifier e.name ++ " >= " ++ l ++ " AND " ++ identifier e.name ++ " <= " ++ u) hl
    refine ⟨_, rfl, hbound, ?_⟩
    rw [hb]
    exact mentions_between e.name (placed e.name _) (placed e.name _)
  | choice _ _ hns =>
    obtain ⟨rfl, rfl⟩ := Binder.bindList_eq_ok
      (fun list => identifier e.name ++ " IN (" ++ list ++ ")") hl
    refine ⟨_, rfl, hbound, ?_⟩
    rw [hb]
    exact (mentions_identifier e.name).chosen (mentions_placeholders placed _ _)
  | pattern hn =>
    obtain ⟨hlike, -⟩ := exists_of_single (by decide) (by decide) hl
    contradiction
  | value hbetween honeOf _ hn =>
    obtain ⟨hlike, x, hx, rfl⟩ := exists_of_single hbetween honeOf hl
    obtain ⟨rfl, rfl⟩ := Binder.bind_eq_ok hx
    have hnone : [Token.sign (comparison o)].filterMap Token.placeholder? = [] := by
      cases o <;> rfl
    refine ⟨_, rfl, hbound, ?_⟩
    rw [hb]
    exact (mentions_identifier e.name).compared (closes_comparison hbetween honeOf hlike) hnone
      (placed e.name _)

/-- **Predicates and conjunctions use the operands in their order.** -/
def binding (k : Keyspace) (schema : Option (SchemaLookup (Except QueryError))) :
    (dialect (m := Except QueryError) k schema).Binding where
  binds _ := true
  translate _ v := v
  uses n us text := Mentions quotes text (placeholdersFrom .question n us)
  predicate := binds_predicate
  join {c _ _ fs _} _ hfs hf := by
    have hand : Closes quotes " AND " [.word "AND"] := rfl
    obtain ⟨pss, hpss, hflatten⟩ := mentions_usesAll hfs
    cases c with
    | and =>
      obtain rfl := Except.ok.inj hf
      rw [← hflatten]
      exact mentions_intercalate hand rfl rfl hpss
    | or => cases hf
  negate _ hg := by cases hg

/-! ## Statements -/

theorem adds_whereClause {filter : Option String} {us : List (Named Native)}
    (h : (binding k schema).UsedBy us filter) :
    Adds quotes (whereClause filter) (placeholdersFrom .question 1 us) := by
  have hwhere : Closes quotes " WHERE " [.word "WHERE"] := rfl
  exact adds_clause (fun _ _ huses => huses) hwhere rfl rfl rfl (fun _ => rfl) h

theorem orderEntries_eq_ok {sorts : List SortKey} {entries : List String}
    (h : orderEntries k entity sorts = .ok entries) :
    entries = sorts.map fun s => identifier s.field ++ " " ++ directionWord s.direction := by
  induction sorts generalizing entries with
  | nil => exact (Except.ok.inj h).symm
  | cons s ss ih =>
    simp only [orderEntries] at h
    split at h
    · cases h
    · obtain ⟨rest, hrest, h⟩ := bind_eq_ok.mp h
      rw [← pure_eq_ok.mp h, ih hrest, List.map_cons]

theorem mentions_sortKey (s : SortKey) :
    Mentions quotes (identifier s.field ++ " " ++ directionWord s.direction) [] := by
  apply (mentions_identifier s.field).followed
  cases s.direction <;> rfl

theorem adds_orderClause {sorts : List SortKey} {order : String}
    (h : orderClause k entity sorts = .ok order) : Adds quotes order [] := by
  obtain ⟨entries, hentries, h⟩ := bind_eq_ok.mp h
  obtain rfl := pure_eq_ok.mp h
  obtain rfl := orderEntries_eq_ok hentries
  split
  · exact adds_empty
  · have horder : Closes quotes " ORDER BY " [.word "ORDER", .word "BY"] := rfl
    exact horder.adds_append rfl rfl (mentions_list fun s _ => mentions_sortKey s)

/-- **A statement has the placeholders of its filter, and no others.** -/
theorem mentions_assemble {q : Query} {l : Lowered String Native} {s : Statement String Native}
    {us : List (Named Native)} (hs : assemble k q l = .ok s)
    (h : (binding k schema).UsedBy us l.filter) :
    Mentions quotes s.statement (placeholdersFrom .question 1 us) := by
  obtain ⟨order, horder, hs⟩ := bind_eq_ok.mp hs
  obtain rfl := pure_eq_ok.mp hs
  have hselect : Closes quotes "SELECT " [.word "SELECT"] := rfl
  have hfrom : Closes quotes " FROM " [.word "FROM"] := rfl
  have hdot : Closes quotes "." [.sign "."] := rfl
  have hfiltering : Adds quotes
      (if k.allowFiltering && l.filter.isSome then " ALLOW FILTERING" else "") [] := by
    split
    · exact ⟨⟨[.word "ALLOW", .word "FILTERING"], rfl, rfl⟩, .inr rfl⟩
    · exact adds_empty
  have htable := (mentions_identifier k.name).restricted hdot rfl rfl (mentions_identifier q.entity)
  have hclauses := ((htable.append (adds_whereClause h)).append
    (adds_orderClause horder)).append hfiltering
  have hstatement := hselect.mentions_append
    ((mentions_columns mentions_identifier q.projection).restricted hfrom rfl rfl hclauses)
  simp only [List.append_nil, List.nil_append, ← String.append_assoc] at hstatement ⊢
  exact hstatement

/-- **The parameters of a compiled statement are its operands, in order, and there is one placeholder
for each.** -/
theorem exists_of_compile {q : Query} {s : Statement String Native}
    (h : (dialect (m := Except QueryError) k schema).compile config q = .ok s) :
    ∃ us, List.Forall₂
        ((dialect (m := Except QueryError) k schema).Bound (fun _ v => v) q.entity)
        (operandsOf q.condition) us ∧
      s.parameters = us.map (fun u => ⟨none, u.value⟩) ∧
      placeholders? quotes s.statement = some (List.replicate us.length "?") := by
  obtain ⟨l, hl, hs⟩ := Dialect.exists_lowering_of_compile h
  have hrest := Dialect.restLowered_of_lowering rfl hl
  obtain ⟨us, hus, hbound, hused⟩ := (binding k schema).exists_of_restLowered hrest
  have hparameters : s.parameters = l.parameters := by
    obtain ⟨order, -, hs⟩ := bind_eq_ok.mp hs
    obtain rfl := pure_eq_ok.mp hs
    rfl
  refine ⟨us, ?_, ?_, ?_⟩
  · rwa [← List.filter_true (operandsOf q.condition)]
  · rw [← parametersFrom_eq_map .question (fun _ _ => rfl) 1, hparameters]
    exact hus
  · rw [← placeholdersFrom_question 1, placeholders?_eq_some]
    exact mentions_assemble hs hused

end PortableQuery.Cql
