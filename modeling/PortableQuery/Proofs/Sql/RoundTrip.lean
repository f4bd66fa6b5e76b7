import PortableQuery.Proofs.Sql.Filter

set_option autoImplicit false

/-!
# SQL statements are read back

A compiled `SELECT`, read by the grammar of the language and with every placeholder replaced by its
parameter, is the query: no name and no value ends its own position or regroups what stands beside
it.
-/

namespace PortableQuery.Sql

open Lexer Grammar

variable {schema : Option String} {config : CompilerConfig}

/-! ## Clauses -/

theorem renders_name (name : String) : Renders quotes anywhere name? (identifier name) name := by
  obtain ⟨t, hs, hn⟩ := exists_spells_identifier name
  exact ⟨[t], hs, fun rest _ => hn.read rest⟩

theorem renders_projection {write : String → String}
    (hwrite : ∀ name, Renders quotes anywhere name? (write name) name) (projection : List String) :
    Renders quotes (fun t => isComma t || anywhere t) columns?
      (if projection.isEmpty then "*" else String.intercalate ", " (projection.map write))
      projection := by
  cases projection with
  | nil =>
    have hstar : Spells quotes "*" [.sign "*"] := rfl
    exact ⟨_, hstar, fun _ _ => rfl⟩
  | cons name names =>
    have hitems : List.Forall₂ (Renders quotes anywhere name?)
        ((name :: names).map write) (name :: names) := by
      rw [List.forall₂_map_left_iff, List.forall₂_same]
      exact fun n _ => hwrite n
    obtain ⟨ts, hs, hread⟩ := renders_separated hitems (by simp) rfl
    refine ⟨ts, hs, fun rest hrest => ?_⟩
    -- a list of names starts with a name, not with the sign for all
    have hstar : expect? (· == .sign "*") (ts ++ rest) = none := by
      refine expect?_eq_none ?_
      have h := hread rest hrest
      generalize ts ++ rest = us at h
      cases us with
      | nil => rfl
      | cons u us =>
        refine beq_eq_false_iff_ne.mpr ?_
        rintro rfl
        cases h
    rw [columns?, hstar]
    exact hread rest hrest

theorem renders_columns (projection : List String) :
    Renders quotes (fun t => isComma t || anywhere t) columns? (columns projection) projection :=
  renders_projection renders_name projection

theorem renders_table (schema : Option String) (table : String) :
    Renders quotes (· == .sign ".") table? (qualified schema table) (schema, table) := by
  obtain ⟨t, ht, hn⟩ := exists_spells_identifier table
  cases schema with
  | none =>
    refine ⟨[t], ht, fun rest hrest => ?_⟩
    rw [List.singleton_append, table?, hn.read]
    simp only [Option.bind_eq_bind, Option.bind_some, expect?_eq_none hrest]
    rfl
  | some s =>
    obtain ⟨u, hu, hs⟩ := exists_spells_identifier s
    have hdot : Closes quotes "." [.sign "."] := rfl
    refine ⟨[u, .sign ".", t], ?_, fun rest _ => ?_⟩
    · rw [qualified, String.append_assoc]
      exact hu.append (hdot.append ht) (.inr (StartsCutting.append (a := ".") rfl _))
    · simp only [List.cons_append, List.nil_append]
      rw [table?, hs.read]
      simp only [Option.bind_eq_bind, Option.bind_some]
      rw [expect?_cons (by decide)]
      simp only [hn.read, Option.bind_some, Option.pure_def]

theorem writesClause_where {filter : Option String} {g : Option (Formula (Comparison (Slot Nat)))}
    (h : Option.Rel (Writes quotes predicate?) filter g) :
    WritesClause quotes "WHERE" joins (formula? predicate?) (whereClause filter) g := by
  cases h with
  | none => exact writesClause_none
  | some h =>
    obtain ⟨ts, hs, he⟩ := h
    have hwhere : Closes quotes " WHERE " [.word "WHERE"] := rfl
    exact writesClause_some hwhere rfl rfl hs he.reads_formula

theorem renders_sortKey (k : SortKey) :
    Renders quotes anywhere (sortKey? name?)
      (identifier k.field ++ " " ++ directionWord k.direction) k := by
  refine Grammar.renders_sortKey (renders_name k.field) ?_ fun ts => ?_
  · cases k.direction <;> rfl
  · cases k.direction <;> rfl

theorem writesClause_sorts {entry : SortKey → String}
    (hentry : ∀ k, Renders quotes anywhere (sortKey? name?) (entry k) k) (sorts : List SortKey) :
    WritesClause quotes "ORDER" (fun t => isComma t || anywhere t) order?
      (if sorts.isEmpty then "" else " ORDER BY " ++ String.intercalate ", " (sorts.map entry))
      (if sorts.isEmpty then none else some sorts) := by
  cases sorts with
  | nil => exact writesClause_none
  | cons k ks =>
    have hitems : List.Forall₂ (Renders quotes anywhere (sortKey? name?))
        ((k :: ks).map entry) (k :: ks) := by
      rw [List.forall₂_map_left_iff, List.forall₂_same]
      exact fun k _ => hentry k
    obtain ⟨ts, hs, hread⟩ := renders_separated hitems (by simp) rfl
    have horder : Closes quotes " ORDER BY " [.word "ORDER", .word "BY"] := rfl
    exact writesClause_some horder rfl rfl hs hread

theorem writesClause_order (sorts : List SortKey) :
    WritesClause quotes "ORDER" (fun t => isComma t || anywhere t) order? (orderClause sorts)
      (if sorts.isEmpty then none else some sorts) :=
  writesClause_sorts renders_sortKey sorts

theorem writesClause_count (keyword : String) (n : UInt64)
    (hs : Closes quotes (" " ++ keyword ++ " ") [.word keyword])
    (hcut : StartsCutting (" " ++ keyword ++ " "))
    (hk : Token.isWord keyword (.word keyword) = true) :
    WritesClause quotes keyword anywhere count? (countClause keyword n)
      (if 0 < n then some n.toNat else none) := by
  unfold countClause
  split
  · exact writesClause_some hs hcut hk (spells_number n.toNat) fun _ _ => rfl
  · exact writesClause_none

/-! ## Statements -/

theorem getD_count (n : UInt64) : (if 0 < n then some n.toNat else none).getD 0 = n.toNat := by
  split
  · rfl
  · next h => simp [UInt64.le_antisymm (UInt64.not_lt.mp h) UInt64.zero_le]

theorem getD_sorts (sorts : List SortKey) :
    (if sorts.isEmpty then none else some sorts).getD [] = sorts := by
  cases sorts <;> rfl

/-- **An assembled statement is read back in all its parts.** -/
theorem parse_assemble {q : Query} {l : Lowered String Value}
    {g : Option (Formula (Comparison (Slot Nat)))}
    (h : Option.Rel (Writes quotes predicate?) l.filter g) :
    parse? (assemble schema q l).statement =
      some ⟨q.projection, schema, q.entity, g, q.sorts, q.limit.toNat, q.skip.toNat⟩ := by
  have hselect : Closes quotes "SELECT " [.word "SELECT"] := rfl
  have hfrom : Closes quotes " FROM " [.word "FROM"] := rfl
  obtain ⟨cs, hcs, hcolumns⟩ := renders_columns q.projection
  obtain ⟨ts, hts, htable⟩ := renders_table schema q.entity
  -- every clause is read in front of those behind it, which start with later keywords
  obtain ⟨ss, hss, hskip⟩ :=
    (writesClause_count "OFFSET" q.skip rfl rfl rfl).prepend (trails_empty []) (by decide)
  obtain ⟨ls, hls, hlimit⟩ :=
    (writesClause_count "LIMIT" q.limit rfl rfl rfl).prepend hss (by decide)
  obtain ⟨os, hos, horder⟩ := (writesClause_order q.sorts).prepend hls (by decide)
  obtain ⟨ws, hws, hwhere⟩ := (writesClause_where h).prepend hos (by decide)
  have htext := hselect.append (hcs.append (hfrom.append (hts.append hws.spells hws.cuts))
    (.inr (StartsCutting.append (a := " FROM ") rfl _)))
  have htable := htable ws (hws.heads.any_eq_false (by decide))
  have hread : select? ([.word "SELECT"] ++ (cs ++ ([.word "FROM"] ++ (ts ++ ws)))) =
      some (⟨q.projection, schema, q.entity, g, q.sorts, q.limit.toNat, q.skip.toNat⟩, []) := by
    simp only [List.cons_append, List.nil_append]
    rw [select?, expect?_cons (by decide)]
    simp only [Option.bind_eq_bind, Option.bind_some]
    rw [hcolumns _ rfl]
    simp only [Option.bind_some]
    rw [expect?_cons (by decide)]
    simp only [Option.bind_some, htable, hwhere, horder, hlimit, hskip, getD_sorts, getD_count,
      Option.pure_def]
  have hstatement : (assemble schema q l).statement = "SELECT " ++ (columns q.projection ++
      (" FROM " ++ (qualified schema q.entity ++ (whereClause l.filter ++ (orderClause q.sorts ++
        (countClause "LIMIT" q.limit ++ (countClause "OFFSET" q.skip ++ ""))))))) := by
    simp only [assemble, Lowered.finish, String.append_assoc, String.append_empty]
  rw [parse?, hstatement, htext]
  simp only [Option.bind_eq_bind, Option.bind_some, hread]
  rfl

/-- **A compiled statement, its placeholders replaced by their parameters, is read back as the
query.** -/
theorem parse_select {q : Query} {s : Statement String Value}
    (h : (dialect (Except QueryError) schema).compile config q = .ok s) :
    (parse? s.statement).map (·.map (language.value? s.parameters)) =
      some ((Select.ofQuery schema q).map some) := by
  obtain ⟨l, hl, hs⟩ := Dialect.exists_lowering_of_compile h
  obtain rfl := Except.ok.inj hs
  cases hl with
  | empty hq =>
    rw [parse_assemble (l := .empty) .none]
    simp [Select.map, Select.ofQuery, hq]
  | @whole c f b hq _ hc =>
    obtain ⟨-, -, g, hg, hmeans⟩ := means_lowerCondition hc ⟨rfl, rfl⟩
    have hmeans : g.map (Comparison.map (language.value? b.parameters)) = expected c :=
      hmeans b.parameters List.prefix_rfl
    rw [parse_assemble (l := ⟨some f, b.parameters, []⟩) (.some hg)]
    simp [Select.map, Select.ofQuery, hq, assemble, Lowered.finish, hmeans, expected]
  | split hq hk _ _ => cases hk

/-- A query of names that are keywords, or that would end their own position. -/
def hostileQuery : Query where
  entity := "users\" WHERE 1=1; --"
  condition := some (.join .or [
    .not (.predicate .like ⟨"not", .text "%') OR ('1'='1"⟩),
    .join .and [.predicate .between ⟨"x AND y", .list [.int 1, .int 2]⟩],
    .predicate .oneOf ⟨"$1", .list [.null, .text ")"]⟩,
    .predicate .equals ⟨"(", .null⟩])
  projection := ["*", "a, b\"", "name"]
  sorts := [⟨"DESC", .ascending⟩, ⟨"created_at", .descending⟩]
  limit := 18446744073709551615
  skip := 1

theorem parse_select_hostileQuery :
    ∃ s, (dialect (Except QueryError) (some "a.b")).compile {} hostileQuery = .ok s ∧
      (parse? s.statement).map (·.map (language.value? s.parameters)) =
        some ((Select.ofQuery (some "a.b") hostileQuery).map some) :=
  ⟨_, rfl, parse_select rfl⟩

end PortableQuery.Sql
