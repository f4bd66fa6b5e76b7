import PortableQuery.Proofs.Aql.RoundTrip
import PortableQuery.Proofs.Cql.Placeholders
import PortableQuery.Proofs.Lowering.Alike

set_option autoImplicit false

/-!
# Values stay out of statements

SQL, CQL and AQL write a placeholder for every operand, so the operands of a query have no influence
on the text of its statement. Whether they are null matters to SQL, which has a form of its own for
an equality with null, and to nothing else.
-/

namespace PortableQuery

variable {config : CompilerConfig} {q q' : Query}

/-! ## Predicates with placeholders -/

/-- How a language writes a restriction of a path. -/
structure Phrasing where
  range : String → String → String → String
  choice : String → String → String
  sign : Operator → String

namespace Phrasing

variable (w : Phrasing)

/-- The restriction of a path by an operator and placeholders; an equality without any is one with
null. -/
def write (o : Operator) (path : String) (ps : List String) : String :=
  match o, ps with
  | .between, [l, u] => w.range path l u
  | .oneOf, ps => w.choice path (String.intercalate ", " ps)
  | .equals, [] => path ++ " IS NULL"
  | o, [x] => path ++ " " ++ w.sign o ++ " " ++ x
  | _, _ => ""

theorem write_single {o : Operator} (hb : o ≠ .between) (hi : o ≠ .oneOf) (path x : String) :
    w.write o path [x] = path ++ " " ++ w.sign o ++ " " ++ x := by
  cases o <;> first | contradiction | rfl

theorem eq_write_of_bind {N : Type} {o : Operator} (hb : o ≠ .between) (hi : o ≠ .oneOf)
    {name path text x : String} {v : N} {b b' : Binder N} (hx : b.bind name v = .ok (x, b'))
    (htext : text = path ++ " " ++ w.sign o ++ " " ++ x) :
    text = w.write o path (placeholdersFrom b.style b.nextOrdinal [⟨name, v⟩]) ∧
      b' = b.extend [⟨name, v⟩] := by
  obtain ⟨rfl, rfl⟩ := Binder.bind_eq_ok hx
  exact ⟨htext.trans (w.write_single hb hi path _).symm, rfl⟩

end Phrasing

/-! ## SQL -/

namespace Sql

/-- A comparison without its operand, and whether it is an equality with null. -/
def view : Comparison.View (Comparison.Shape × Bool) where
  view a := (a.shape, a.operator == .equals && a.value.isNull)
  shape := Prod.fst
  shape_view _ := rfl

/-- How SQL writes restrictions. -/
def phrasing : Phrasing where
  range path l u := path ++ " BETWEEN " ++ l ++ " AND " ++ u
  choice path list := path ++ " IN (" ++ list ++ ")"
  sign := comparison

/-- The values that are bound: not the null of an equality. -/
def boundValues : Operator → Operand Value → List Value
  | .equals, .single .null => []
  | _, x => x.values

theorem boundValues_single {o : Operator} {v : Value} (h : ¬ (o = .equals ∧ v = .null)) :
    boundValues o (.single v) = [v] := by
  unfold boundValues
  split
  · next hx => exact absurd ⟨rfl, Operand.single.inj hx⟩ h
  · rfl

theorem length_boundValues {o : Operator} (hb : o ≠ .between) (hi : o ≠ .oneOf) (field : String)
    (v : Value) : (boundValues o (.single v)).length =
      if o == .equals && v.isNull then 0 else (Comparison.shape ⟨o, field, v⟩).count := by
  by_cases hnull : o = .equals ∧ v = .null
  · obtain ⟨rfl, rfl⟩ := hnull
    rfl
  · have hsome : (o == .equals && v.isNull) = false := by
      simpa [Bool.and_eq_false_iff, ← Value.isNull_iff, imp_iff_not_or] using hnull
    rw [boundValues_single hnull, hsome]
    cases o <;> first | contradiction | rfl

theorem written_single {o : Operator} (hb : o ≠ .between) (hi : o ≠ .oneOf)
    {name path text : String} {v : Value} {b b' : Binder Value}
    (h : lowerPredicate ⟨o, name, path, .single v⟩ b = .ok (text, b')) :
    text = phrasing.write o path (placeholdersFrom b.style b.nextOrdinal
        ((boundValues o (.single v)).map (⟨name, ·⟩))) ∧
      b' = b.extend ((boundValues o (.single v)).map (⟨name, ·⟩)) := by
  by_cases hnull : o = .equals ∧ v = .null
  · obtain ⟨rfl, rfl⟩ := hnull
    obtain ⟨rfl, rfl⟩ := Prod.mk.inj (Except.ok.inj h)
    exact ⟨rfl, b.extend_nil.symm⟩
  · rw [boundValues_single hnull]
    obtain ⟨ho, hv, -⟩ | ⟨x, hx, htext⟩ := lowerPredicate_single hb hi h
    · exact absurd ⟨ho, hv⟩ hnull
    · exact phrasing.eq_write_of_bind hb hi hx htext

/-- A predicate is written with a placeholder for each of its values but nulls of equalities. -/
def template (schema : Option String) : (dialect (Except QueryError) schema).Template view where
  values := boundValues
  count a := if a.2 then 0 else a.1.count
  write := phrasing.write
  lower_eq_ok {_ _ _ _ path _ _ _} hx h := by
    cases hx with
    | range _ _ => exact Binder.bindPair_eq_ok (phrasing.range path) h
    | choice _ _ _ => exact Binder.bindList_eq_ok (phrasing.choice path) h
    | pattern _ => exact written_single (by decide) (by decide) h
    | value hb hi _ _ => exact written_single hb hi h
  length_values {scope _ _ _} hx := by
    have hlength := hx.length_values
    cases hx with
    | range _ _ | choice _ _ _ => exact hlength
    | pattern hn =>
      obtain rfl := eq_of_toNative_eq_ok hn
      exact length_boundValues (by decide) (by decide) scope.field _
    | value hb hi _ hn =>
      obtain rfl := eq_of_toNative_eq_ok hn
      exact length_boundValues hb hi scope.field _

theorem sameText_of_compile {schema : Option String} (h : q.Alike view.view q')
    {s s' : Statement String Value}
    (hs : (dialect (Except QueryError) schema).compile config q = .ok s)
    (hs' : (dialect (Except QueryError) schema).compile config q' = .ok s') : s.SameText s' := by
  obtain ⟨l, l', ⟨hfilter, hnames, -⟩, hs, hs'⟩ :=
    (template schema).exists_alike_of_compile h hs hs'
  obtain rfl := Except.ok.inj hs
  obtain rfl := Except.ok.inj hs'
  rw [h.frame_eq]
  refine ⟨?_, hnames⟩
  simp only [assemble, Lowered.finish, hfilter]

end Sql

/-! ## CQL -/

namespace Cql

/-- How CQL writes restrictions. -/
def phrasing : Phrasing where
  range path l u := path ++ " >= " ++ l ++ " AND " ++ path ++ " <= " ++ u
  choice path list := path ++ " IN (" ++ list ++ ")"
  sign := comparison

/-- A predicate is written with a placeholder for each of its values. -/
def template (k : Keyspace) (schema : Option (SchemaLookup (Except QueryError))) :
    (dialect (m := Except QueryError) k schema).Template .shapes where
  values _ x := x.values
  count := Comparison.Shape.count
  write := phrasing.write
  lower_eq_ok {_ _ _ _ path _ _ _} hx h := by
    cases hx with
    | range _ _ => exact Binder.bindPair_eq_ok (phrasing.range path) h
    | choice _ _ _ => exact Binder.bindList_eq_ok (phrasing.choice path) h
    | pattern _ =>
      obtain ⟨hlike, -⟩ := exists_of_single (by decide) (by decide) h
      contradiction
    | value hb hi _ _ =>
      obtain ⟨-, x, hx, htext⟩ := exists_of_single hb hi h
      exact phrasing.eq_write_of_bind hb hi hx htext
  length_values hx := hx.length_values

theorem sameText_of_compile {k : Keyspace} {schema : Option (SchemaLookup (Except QueryError))}
    (h : q.Alike Comparison.shape q') {s s' : Statement String Native}
    (hs : (dialect (m := Except QueryError) k schema).compile config q = .ok s)
    (hs' : (dialect (m := Except QueryError) k schema).compile config q' = .ok s') :
    s.SameText s' := by
  obtain ⟨l, l', ⟨hfilter, hnames, -⟩, hs, hs'⟩ :=
    (template k schema).exists_alike_of_compile h hs hs'
  obtain ⟨order, horder, hs⟩ := bind_eq_ok.mp hs
  obtain rfl := pure_eq_ok.mp hs
  obtain ⟨order', horder', hs'⟩ := bind_eq_ok.mp hs'
  obtain rfl := pure_eq_ok.mp hs'
  rw [h.frame_eq] at horder' ⊢
  obtain rfl := Except.ok.inj (horder.symm.trans horder')
  refine ⟨?_, hnames⟩
  simp only [Lowered.finish, hfilter]

end Cql

/-! ## AQL -/

namespace Aql

/-- How AQL writes restrictions. -/
def phrasing : Phrasing where
  range path l u := "(" ++ path ++ " >= " ++ l ++ " AND " ++ path ++ " <= " ++ u ++ ")"
  choice path list := path ++ " IN [" ++ list ++ "]"
  sign := comparison

/-- A predicate is written with a placeholder for each of its values. -/
def template : (dialect (Except QueryError)).Template .shapes where
  values _ x := x.values
  count := Comparison.Shape.count
  write := phrasing.write
  lower_eq_ok {_ _ _ _ path _ _ _} hx h := by
    cases hx with
    | range _ _ => exact Binder.bindPair_eq_ok (phrasing.range path) h
    | choice _ _ _ => exact Binder.bindList_eq_ok (phrasing.choice path) h
    | pattern _ =>
      obtain ⟨x, hx, htext⟩ := lowerPredicate_single (o := .like) (by decide) (by decide) h
      exact phrasing.eq_write_of_bind (by decide) (by decide) hx htext
    | value hb hi _ _ =>
      obtain ⟨x, hx, htext⟩ := lowerPredicate_single hb hi h
      exact phrasing.eq_write_of_bind hb hi hx htext
  length_values hx := hx.length_values

theorem alike_bindKeys {l l' r r' : Lowered String Json} (h : l.Alike l')
    (hr : bindKeys l = .ok r) (hr' : bindKeys l' = .ok r') : r.Alike r' := by
  obtain ⟨hfilter, hnames, hempty⟩ := h
  unfold bindKeys at hr hr'
  rw [← hempty] at hr'
  split at hr
  · next hnone =>
    rw [if_pos hnone] at hr'
    obtain rfl := Except.ok.inj hr
    obtain rfl := Except.ok.inj hr'
    exact ⟨hfilter, hnames, hempty⟩
  · next hsome =>
    rw [if_neg hsome] at hr'
    split at hr
    · cases hr
    split at hr'
    · cases hr'
    obtain rfl := Except.ok.inj hr
    obtain rfl := Except.ok.inj hr'
    exact ⟨hfilter, by simp only [List.map_append, hnames, List.map_cons, List.map_nil], hempty⟩

theorem sameText_of_compile (h : q.Alike Comparison.shape q') {s s' : Statement String Json}
    (hs : (dialect (Except QueryError)).compile config q = .ok s)
    (hs' : (dialect (Except QueryError)).compile config q' = .ok s') : s.SameText s' := by
  obtain ⟨l, l', halike, hs, hs'⟩ := template.exists_alike_of_compile h hs hs'
  obtain ⟨r, hr, hs⟩ := bind_eq_ok.mp hs
  obtain rfl := pure_eq_ok.mp hs
  obtain ⟨r', hr', hs'⟩ := bind_eq_ok.mp hs'
  obtain rfl := pure_eq_ok.mp hs'
  obtain ⟨hfilter, hnames, hempty⟩ := alike_bindKeys halike hr hr'
  rw [h.frame_eq]
  refine ⟨?_, hnames⟩
  simp only [Lowered.finish, hfilter, hempty]

end Aql

/-! ## The three of them -/

/-- **Queries that differ in the operands of their predicates have statements that differ in the
values of their parameters and in their keys.** To SQL it also matters which equalities are with
null. -/
theorem values_stay_out (config : CompilerConfig) (q q' : Query) :
    (q.Alike Sql.view.view q' → ∀ schema s s',
      (Sql.dialect (Except QueryError) schema).compile config q = .ok s →
      (Sql.dialect (Except QueryError) schema).compile config q' = .ok s' → s.SameText s') ∧
    (q.Alike Comparison.shape q' → ∀ k schema s s',
      (Cql.dialect (m := Except QueryError) k schema).compile config q = .ok s →
      (Cql.dialect (m := Except QueryError) k schema).compile config q' = .ok s' →
      s.SameText s') ∧
    (q.Alike Comparison.shape q' → ∀ s s',
      (Aql.dialect (Except QueryError)).compile config q = .ok s →
      (Aql.dialect (Except QueryError)).compile config q' = .ok s' → s.SameText s') :=
  ⟨fun h _ _ _ => Sql.sameText_of_compile h, fun h _ _ _ _ => Cql.sameText_of_compile h,
    fun h _ _ => Aql.sameText_of_compile h⟩

/-- A query by key, by the key among others, and by a note. -/
def keyedQuery (key note : Value) : Query where
  entity := "Person"
  condition := some (.join .and [.predicate .oneOf ⟨"name", .list [.text "n", key]⟩,
    .predicate .equals ⟨"_id", key⟩, .predicate .equals ⟨"note", note⟩])

/-- A query for a pattern beside an equality with null. -/
def patternQuery (pattern : String) : Query where
  entity := "Person"
  condition := some (.join .or [.predicate .equals ⟨"gone", .null⟩,
    .not (.predicate .like ⟨"name", .text pattern⟩)])

theorem values_stay_out_hostile :
    (∃ s s', (Sql.dialect (Except QueryError) none).compile {} (patternQuery "a%") = .ok s ∧
      (Sql.dialect (Except QueryError) none).compile {} (patternQuery "' OR $1 IS NULL) --") =
        .ok s' ∧ s.SameText s') ∧
    (∃ s s', (Cql.dialect (m := Except QueryError) ⟨"k", [], true⟩ none).compile {}
        (keyedQuery (.text "p1") (.text "a")) = .ok s ∧
      (Cql.dialect (m := Except QueryError) ⟨"k", [], true⟩ none).compile {}
        (keyedQuery (.text "?; --") (.list [.map [⟨"'", .list []⟩]])) = .ok s' ∧
      s.SameText s') ∧
    ∃ s s', (Aql.dialect (Except QueryError)).compile {}
        (keyedQuery (.text "p1") (.text "a")) = .ok s ∧
      (Aql.dialect (Except QueryError)).compile {}
        (keyedQuery (.text "@keys") (.list [.map [⟨"'", .list []⟩]])) = .ok s' ∧
      s.SameText s' ∧ s.keyLookup = [.string "p1"] ∧ s'.keyLookup = [.string "@keys"] := by
  refine ⟨⟨_, _, rfl, rfl, ?_⟩, ⟨_, _, rfl, rfl, ?_⟩, _, _, rfl, rfl, ?_, rfl, rfl⟩
  · exact (values_stay_out {} (patternQuery "a%") (patternQuery "' OR $1 IS NULL) --")).1
      ⟨rfl, rfl⟩ none _ _ rfl rfl
  · exact (values_stay_out {} (keyedQuery (.text "p1") (.text "a"))
      (keyedQuery (.text "?; --") (.list [.map [⟨"'", .list []⟩]]))).2.1 ⟨rfl, rfl⟩
      ⟨"k", [], true⟩ none _ _ rfl rfl
  · exact (values_stay_out {} (keyedQuery (.text "p1") (.text "a"))
      (keyedQuery (.text "@keys") (.list [.map [⟨"'", .list []⟩]]))).2.2 ⟨rfl, rfl⟩ _ _ rfl rfl

end PortableQuery
