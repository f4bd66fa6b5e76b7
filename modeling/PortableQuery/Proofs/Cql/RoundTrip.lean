import PortableQuery.Proofs.Cql.Filter
import PortableQuery.Proofs.Lowering.Refusal
import PortableQuery.Proofs.Sql.RoundTrip

set_option autoImplicit false

/-!
# CQL statements are read back

A compiled `SELECT`, with every question mark replaced by the parameter at its place, is the query:
the conjunctions of its condition lie side by side, however they were nested, and that is all that
they meant.
-/

namespace PortableQuery.Cql

open Lexer Grammar

variable {k : Keyspace} {config : CompilerConfig} {entity : String}

/-! ## Clauses -/

theorem renders_name (name : String) :
    Renders quotes anywhere Sql.name? (identifier name) name := by
  obtain ⟨t, hs, hread⟩ := exists_spells_identifier name
  exact ⟨[t], hs, fun rest _ => hread rest⟩

theorem renders_columns (projection : List String) :
    Renders quotes (fun t => isComma t || anywhere t) Sql.columns? (columns projection)
      projection :=
  Sql.renders_projection renders_name projection

theorem renders_sortKey (s : SortKey) :
    Renders quotes anywhere (sortKey? Sql.name?)
      (identifier s.field ++ " " ++ directionWord s.direction) s := by
  refine Grammar.renders_sortKey (renders_name s.field) ?_ fun ts => ?_
  · cases s.direction <;> rfl
  · cases s.direction <;> rfl

theorem mem_clustering_of_orderEntries {sorts : List SortKey} {entries : List String}
    (h : orderEntries k entity sorts = .ok entries) : ∀ s ∈ sorts, s.field ∈ k.clustering := by
  induction sorts generalizing entries with
  | nil => exact List.forall_mem_nil _
  | cons s ss ih =>
    rw [orderEntries] at h
    split at h
    · cases h
    · next hfield =>
      obtain ⟨rest, hrest, h⟩ := bind_eq_ok.mp h
      exact List.forall_mem_cons.mpr ⟨not_not.mp hfield, ih hrest⟩

theorem orderClause_eq_ok {sorts : List SortKey} {order : String}
    (h : orderClause k entity sorts = .ok order) :
    order = (if sorts.isEmpty then "" else " ORDER BY " ++ String.intercalate ", "
      (sorts.map fun s => identifier s.field ++ " " ++ directionWord s.direction)) ∧
      ∀ s ∈ sorts, s.field ∈ k.clustering := by
  obtain ⟨entries, hentries, h⟩ := bind_eq_ok.mp h
  obtain rfl := pure_eq_ok.mp h
  refine ⟨?_, mem_clustering_of_orderEntries hentries⟩
  rw [orderEntries_eq_ok hentries, List.isEmpty_map]

/-- The words that allow filtering. -/
def filteringClause (allowed : Bool) : String := if allowed then " ALLOW FILTERING" else ""

theorem writesClause_filtering (allowed : Bool) :
    WritesClause quotes "ALLOW" anywhere filtering? (filteringClause allowed)
      (if allowed then some () else none) := by
  cases allowed with
  | false => exact writesClause_none
  | true =>
    have hallow : Closes quotes " ALLOW " [.word "ALLOW"] := rfl
    have hfiltering : Spells quotes "FILTERING" [.word "FILTERING"] := rfl
    exact writesClause_some hallow rfl rfl hfiltering fun _ _ => rfl

theorem adds_filteringClause (allowed : Bool) : Adds quotes (filteringClause allowed) [] := by
  cases allowed with
  | false => exact adds_empty
  | true => exact ⟨⟨[.word "ALLOW", .word "FILTERING"], rfl, rfl⟩, .inr rfl⟩

/-- What is left of a statement behind its filter is read clause by clause. -/
theorem exists_trails {sorts : List SortKey} {order : String}
    (h : orderClause k entity sorts = .ok order) (allowed : Bool) :
    ∃ os fs, Trails quotes ["ORDER", "ALLOW"] (order ++ filteringClause allowed) os ∧ Unmarked os ∧
      clause? "ORDER" Sql.order? os = some (if sorts.isEmpty then none else some sorts, fs) ∧
      clause? "ALLOW" filtering? fs = some (if allowed then some () else none, []) := by
  obtain ⟨fs, hfs, hfiltering⟩ :=
    (writesClause_filtering allowed).prepend (trails_empty []) (by decide)
  obtain ⟨os, hos, horder⟩ :=
    (Sql.writesClause_sorts renders_sortKey sorts).prepend hfs (by decide)
  rw [← (orderClause_eq_ok h).1, String.append_empty] at hos
  have hmentions := (adds_orderClause h).append (adds_filteringClause allowed)
  exact ⟨os, fs, hos, hos.spells.unmarked hmentions.mentions, horder, hfiltering⟩

/-! ## Statements -/

/-- The filter is these restrictions; no filter is none. -/
def FilterLists : Option String → List (Comparison (Slot Nat)) → Prop
  | none, slots => slots = []
  | some text, slots => ∃ n, Lists 0 text slots n

theorem exists_whereClause {filter : Option String} {slots : List (Comparison (Slot Nat))}
    (h : FilterLists filter slots) :
    ∃ ws x, Spells quotes (whereClause filter) ws ∧
      (whereClause filter = "" ∨ StartsCutting (whereClause filter)) ∧ x.getD [] = slots ∧
      Reads (fun t => t.isWord "WHERE" || (t.isWord "AND" || anywhere t))
        (clause? "WHERE" (separated? (Token.isWord "AND") restriction?)) (numbered 0 ws) x := by
  cases filter with
  | none =>
    obtain rfl : slots = [] := h
    have hnone : WritesClause quotes "WHERE" (fun t => t.isWord "AND" || anywhere t)
        (separated? (Token.isWord "AND") restriction?) "" none := writesClause_none
    obtain ⟨ts, hts, hcut, -, hread⟩ := hnone
    obtain rfl : [] = ts := Option.some.inj hts
    exact ⟨[], none, hts, hcut, rfl, hread⟩
  | some text =>
    obtain ⟨_, ts, hts, -, hne, tss, hnumbered, hread⟩ := h
    have hwhere : Closes quotes " WHERE " [.word "WHERE"] := rfl
    have hunmarked : Unmarked [.word "WHERE"] := by decide
    have hand : andToken.isWord "AND" = true := rfl
    have hlist := reads_separated hand rfl hread hne
    have hspells : Spells quotes (whereClause (some text)) ([.word "WHERE"] ++ ts) :=
      hwhere.append hts
    refine ⟨_, some slots, hspells, .inr (StartsCutting.append (a := " WHERE ") rfl _), rfl,
      fun rest hrest => ?_⟩
    have hbad : rest.head?.any (fun t => t.isWord "AND" || anywhere t) = false := by
      cases rest with
      | nil => rfl
      | cons t ts => exact (Bool.or_eq_false_iff.mp hrest).2
    rw [hunmarked.numbered_append, List.append_assoc, List.singleton_append, clause?,
      expect?_cons (by decide), hnumbered]
    simp only [hlist rest hbad, Option.bind_eq_bind, Option.bind_some, Option.pure_def]

theorem exists_statement {q : Query} {l : Lowered String Native} {s : Statement String Native}
    (h : assemble k q l = .ok s) : ∃ order, orderClause k q.entity q.sorts = .ok order ∧
      s.parameters = l.parameters ∧
      s.statement = "SELECT " ++ (columns q.projection ++ (" FROM " ++ (identifier k.name ++ ("." ++
        (identifier q.entity ++ (whereClause l.filter ++
          (order ++ filteringClause (k.allowFiltering && l.filter.isSome)))))))) := by
  obtain ⟨order, horder, h⟩ := bind_eq_ok.mp h
  obtain rfl := pure_eq_ok.mp h
  refine ⟨order, horder, rfl, ?_⟩
  simp only [Lowered.finish, filteringClause, String.append_assoc]

/-- **An assembled statement is read back in all its parts.** -/
theorem parse_assemble {q : Query} {l : Lowered String Native} {s : Statement String Native}
    {slots : List (Comparison (Slot Nat))} (hs : assemble k q l = .ok s)
    (h : FilterLists l.filter slots) :
    parse? s.statement = some ⟨q.projection, k.name, q.entity, slots, q.sorts,
      k.allowFiltering && l.filter.isSome⟩ := by
  obtain ⟨order, horder, -, hstatement⟩ := exists_statement hs
  have hselect : Closes quotes "SELECT " [.word "SELECT"] := rfl
  have hfrom : Closes quotes " FROM " [.word "FROM"] := rfl
  have hdot : Closes quotes "." [.sign "."] := rfl
  obtain ⟨cs, hcs, hcolumns⟩ := renders_columns q.projection
  obtain ⟨kt, hkt, hkeyspace⟩ := exists_spells_identifier k.name
  obtain ⟨tt, htt, htable⟩ := exists_spells_identifier q.entity
  obtain ⟨ws, x, hws, hwcut, rfl, hwhere⟩ := exists_whereClause h
  obtain ⟨os, fs, hos, hunmarked, hsorts, hfiltering⟩ :=
    exists_trails horder (k.allowFiltering && l.filter.isSome)
  -- the tokens of the text, from its end to its start
  have htail := hws.append hos.spells hos.cuts
  have hnamed := hkt.append (hdot.append (htt.append htail
    (empty_or_startsCutting_append hwcut hos.cuts))) (.inr (StartsCutting.append (a := ".") rfl _))
  have htext := hselect.append (hcs.append (hfrom.append hnamed)
    (.inr (StartsCutting.append (a := " FROM ") rfl _)))
  -- only the filter has question marks, so they are numbered from its start on
  have hcsmarks : Unmarked cs := hcs.unmarked (mentions_columns mentions_identifier q.projection)
  have hnumbered : numbered 0 ([.word "SELECT"] ++ (cs ++ ([.word "FROM"] ++ ([kt] ++
      ([.sign "."] ++ ([tt] ++ (ws ++ os))))))) = [.word "SELECT"] ++ (cs ++ ([.word "FROM"] ++
      ([kt] ++ ([.sign "."] ++ ([tt] ++ (numbered 0 ws ++ os)))))) := by
    rw [Unmarked.numbered_append (by decide), hcsmarks.numbered_append,
      Unmarked.numbered_append (by decide), (unmarked_of_name hkeyspace).numbered_append,
      Unmarked.numbered_append (by decide), (unmarked_of_name htable).numbered_append,
      numbered_append, hunmarked.numbered_eq]
  have hwhere := hwhere os (hos.heads.any_eq_false (by decide))
  have hread : select? ([.word "SELECT"] ++ (cs ++ ([.word "FROM"] ++ ([kt] ++ ([.sign "."] ++
      ([tt] ++ (numbered 0 ws ++ os))))))) = some (⟨q.projection, k.name, q.entity, x.getD [],
        q.sorts, k.allowFiltering && l.filter.isSome⟩, []) := by
    simp only [List.cons_append, List.nil_append]
    rw [select?, expect?_cons (by decide)]
    simp only [Option.bind_eq_bind, Option.bind_some]
    rw [hcolumns _ rfl]
    simp only [Option.bind_some]
    rw [expect?_cons (by decide)]
    simp only [Option.bind_some, hkeyspace]
    rw [expect?_cons (by decide)]
    simp only [Option.bind_some, htable, hwhere, hsorts, hfiltering, Sql.getD_sorts,
      Option.pure_def]
    cases k.allowFiltering && l.filter.isSome <;> rfl
  rw [parse?, hstatement, htext]
  simp only [Option.bind_eq_bind, Option.bind_some, hnumbered, hread]
  rfl

/-! ## Rows -/

section Rows

variable {schema : Option (SchemaLookup (Except QueryError))}
  {R : Operator → Native → Native → Prop} {row : String → Native}

theorem Converted.restricts_iff {a : Comparison Value} {r : Comparison Native}
    (h : Converted schema entity a r) : Restricts R row r ↔ Satisfies schema entity R row a := by
  obtain ⟨hoperator, hfield, hvalue⟩ := h
  rw [Restricts, Satisfies, hoperator, hfield]
  constructor
  · exact fun hr => ⟨r.value, hvalue, hr⟩
  · rintro ⟨n, hn, hr⟩
    rwa [Except.ok.inj (hvalue.symm.trans hn)]

theorem forall_restricts_iff {as : List (Comparison Value)} {rs : List (Comparison Native)}
    (h : List.Forall₂ (Converted schema entity) as rs) :
    (∀ r ∈ rs, Restricts R row r) ↔ ∀ a ∈ as, Satisfies schema entity R row a := by
  induction h with
  | nil => simp
  | cons ha _ ih => rw [List.forall_mem_cons, List.forall_mem_cons, ha.restricts_iff, ih]

theorem forall_restrictionsOf_iff (a : Comparison Value) :
    (∀ x ∈ restrictionsOf a, Satisfies schema entity R row x) ↔
      Satisfies schema entity R row a := by
  obtain ⟨o, field, v⟩ := a
  unfold restrictionsOf
  split
  · next lower upper ho hv =>
    obtain rfl : o = .between := ho
    obtain rfl : v = .list [lower, upper] := hv
    simp only [List.forall_mem_cons, List.not_mem_nil, false_implies, implies_true, and_true,
      Satisfies, toNative_list_eq_ok, List.forall₂_cons_left_iff, List.forall₂_nil_left_iff]
    constructor
    · rintro ⟨⟨l, hl, hlower⟩, u, hu, hupper⟩
      exact ⟨_, ⟨_, ⟨l, _, hl, ⟨u, _, hu, rfl, rfl⟩, rfl⟩, rfl⟩, hlower, hupper⟩
    · rintro ⟨_, ⟨_, ⟨l, _, hl, ⟨u, _, hu, rfl, rfl⟩, rfl⟩, rfl⟩, hlower, hupper⟩
      exact ⟨⟨l, hl, hlower⟩, u, hu, hupper⟩
  · rw [List.forall_mem_singleton]

/-- A condition that can be expressed is a conjunction of its comparisons. -/
theorem holds_iff_forall_atoms {p : Comparison Value → Prop} {c : Condition}
    (hc : capabilities.firstUnsupported c = none) :
    c.formula.Holds p ↔ ∀ a ∈ c.formula.atoms, p a := by
  induction c using Condition.induct with
  | predicate o e => simp
  | join connective cs ih =>
    obtain ⟨hjoins, hcs⟩ := Capabilities.firstUnsupported_join_eq_none.mp hc
    cases connective with
    | and =>
      simp only [Condition.formula_join, Formula.holds_and, Formula.atoms_join, List.forall_mem_map,
        List.forall_mem_flatMap]
      exact forall₂_congr fun x hx => ih x hx (hcs x hx)
    | or => cases hjoins
  | not c ih =>
    obtain ⟨hnegation, -⟩ := Capabilities.firstUnsupported_not_eq_none.mp hc
    cases hnegation

/-- **The restrictions hold of the rows that the condition holds of.** -/
theorem restricts_iff {q : Query} {rs : List (Comparison Native)}
    (hc : ∀ c ∈ q.condition, capabilities.firstUnsupported c = none)
    (h : List.Forall₂ (Converted schema q.entity) (conjunction q) rs) :
    (∀ r ∈ rs, Restricts R row r) ↔
      ∀ c ∈ q.condition, c.formula.Holds (Satisfies schema q.entity R row) := by
  rw [forall_restricts_iff h, conjunction]
  cases hq : q.condition with
  | none => simp
  | some c =>
    have hatoms := holds_iff_forall_atoms (p := Satisfies schema q.entity R row) (hc c hq)
    simp only [Option.toList_some, List.flatMap_singleton, restrictions, List.forall_mem_flatMap,
      forall_restrictionsOf_iff, Option.mem_some_iff, forall_eq', hatoms]

end Rows

/-! ## Queries -/

section Queries

variable {schema : Option (SchemaLookup (Except QueryError))}

/-- **The limit and the cursor of a query are the page size and the paging state of its statement,
and nothing else.** -/
theorem compile_paged (config : CompilerConfig) (q : Query) (limit : UInt64)
    (cursor : Option CursorToken) :
    (dialect (m := Except QueryError) k schema).compile config
        { q with limit := limit, cursor := cursor } =
      ((dialect (m := Except QueryError) k schema).compile config q).map fun s =>
        { s with
          fetchSize := if 0 < limit then some limit else none
          pagingState := cursor } := by
  refine Dialect.compile_eq_map _ rfl rfl rfl fun l => ?_
  have horder : orderClause k { q with limit := limit, cursor := cursor }.entity
      { q with limit := limit, cursor := cursor }.sorts = orderClause k q.entity q.sorts := rfl
  show assemble k _ l = (assemble k q l).map _
  unfold assemble
  rw [horder]
  cases orderClause k q.entity q.sorts <;> rfl

theorem exists_filterLists {q : Query} {l : Lowered String Native}
    (h : (dialect (m := Except QueryError) k schema).Lowering config q l) :
    l.filter.isSome = q.condition.isSome ∧
    ∃ slots rs, FilterLists l.filter slots ∧
      List.Forall₂ (Converted schema q.entity) (conjunction q) rs ∧
      slots.map (Comparison.map (value? l.parameters)) = rs.map (Comparison.map some) := by
  cases h with
  | empty hq => exact ⟨by rw [hq]; rfl, [], [], rfl, by rw [conjunction, hq]; exact .nil, rfl⟩
  | @whole c f b hq _ hc =>
    obtain ⟨-, slots, rs, hlists, hrs, hvalues⟩ := means_lowerCondition hc rfl
    refine ⟨by rw [hq]; rfl, slots, rs, ⟨_, hlists⟩, ?_, hvalues _ List.prefix_rfl⟩
    rw [conjunction, hq, Option.toList_some, List.flatMap_singleton]
    exact hrs
  | split hq hk _ _ => cases hk

/-- **A compiled statement is the conjunction that the query asks for.** With every question mark
replaced by the parameter at its place it is read back in its columns, its table, the restrictions
of the flattened condition, and its order, which is by clustering columns only; filtering is allowed
if the keyspace wants it and there is a filter. The limit and the cursor are no part of the text. So
the restrictions hold of the rows that the condition holds of. -/
theorem parse_conjunction {q : Query} {s : Statement String Native}
    (h : (dialect (m := Except QueryError) k schema).compile config q = .ok s) :
    ∃ rs : List (Comparison Native),
      List.Forall₂ (Converted schema q.entity) (conjunction q) rs ∧
      (parse? s.statement).map (·.map (value? s.parameters)) =
        some (Select.map some ⟨q.projection, k.name, q.entity, rs, q.sorts,
          k.allowFiltering && q.condition.isSome⟩) ∧
      (∀ key ∈ q.sorts, key.field ∈ k.clustering) ∧
      s.fetchSize = (if 0 < q.limit then some q.limit else none) ∧ s.pagingState = q.cursor ∧
      (∀ limit cursor, (dialect (m := Except QueryError) k schema).compile config
          { q with limit := limit, cursor := cursor } =
        .ok { s with
          fetchSize := if 0 < limit then some limit else none
          pagingState := cursor }) ∧
      ∀ (R : Operator → Native → Native → Prop) (row : String → Native),
        (∀ r ∈ rs, Restricts R row r) ↔
          ∀ c ∈ q.condition, c.formula.Holds (Satisfies schema q.entity R row) := by
  obtain ⟨l, hl, hs⟩ := Dialect.exists_lowering_of_compile h
  obtain ⟨order, horder, hparameters, -⟩ := exists_statement hs
  obtain ⟨hsome, slots, rs, hlists, hrs, hvalues⟩ := exists_filterLists hl
  have hpaged (limit : UInt64) (cursor : Option CursorToken) :
      (dialect (m := Except QueryError) k schema).compile config
        { q with limit := limit, cursor := cursor } =
      .ok { s with
        fetchSize := if 0 < limit then some limit else none
        pagingState := cursor } := by
    rw [compile_paged, h]
    rfl
  -- the query itself is one of those with another limit and cursor
  have hown : s = { s with
      fetchSize := if 0 < q.limit then some q.limit else none
      pagingState := q.cursor } := Except.ok.inj (h.symm.trans (hpaged q.limit q.cursor))
  refine ⟨rs, hrs, ?_, (orderClause_eq_ok horder).2, congrArg (·.fetchSize) hown,
    congrArg (·.pagingState) hown, hpaged, fun R row => restricts_iff (fun c hc =>
      Dialect.firstUnsupported_of_compile hc h) hrs⟩
  rw [parse_assemble hs hlists, hparameters, hsome]
  simp only [Option.map_some, Select.map, hvalues]

/-- Conjunctions in conjunctions, of names that are reserved words, that hold question marks, or
that would end their own position. -/
def nestedConjunction : Query where
  entity := "users\" WHERE \"id\" = ?; --"
  condition := some (.join .and [
    .predicate .between ⟨"in", .list [.int 1, .text "9"]⟩,
    .join .and [
      .join .and [.predicate .oneOf ⟨"a\" IN (?) AND \"b", .list [.text "?", .int 3]⟩],
      .predicate .less ⟨"home", .udt "address" [⟨"number", .int 7⟩, ⟨"number", .null⟩]⟩],
    .predicate .equals ⟨"and", .list [.text "?"]⟩])
  projection := ["*", "?", "from", "name"]
  sorts := [⟨"ALLOW FILTERING", .descending⟩, ⟨"created_at", .ascending⟩]
  limit := 18446744073709551615

theorem parse_conjunction_nestedConjunction :
    let k : Keyspace := ⟨"k?.\"", ["created_at", "ALLOW FILTERING"], true⟩
    let schema : SchemaLookup (Except QueryError) := fun _ type =>
      .ok (some ⟨type, [⟨"number", .int⟩]⟩)
    ∃ s rs, (dialect k (some schema)).compile {} nestedConjunction = .ok s ∧
      List.Forall₂ (Converted (some schema) nestedConjunction.entity)
        (conjunction nestedConjunction) rs ∧
      (parse? s.statement).map (·.map (value? s.parameters)) =
        some (Select.map some ⟨nestedConjunction.projection, k.name, nestedConjunction.entity, rs,
          nestedConjunction.sorts, true⟩) := by
  intro k schema
  have hcompile : ∃ s, (dialect k (some schema)).compile {} nestedConjunction = .ok s := ⟨_, rfl⟩
  obtain ⟨s, hs⟩ := hcompile
  obtain ⟨rs, hrs, hparse, -⟩ := parse_conjunction hs
  exact ⟨s, rs, hs, hrs, hparse⟩

end Queries

end PortableQuery.Cql
