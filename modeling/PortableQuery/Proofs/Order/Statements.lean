import Mathlib.Data.List.Induction
import PortableQuery.Document.Find
import PortableQuery.Proofs.Aql.RoundTrip
import PortableQuery.Proofs.Order.Effective
import PortableQuery.Proofs.Search.Selection
import PortableQuery.Proofs.Sql.RoundTrip

set_option autoImplicit false

/-!
# Orders of statements

SQL, AQL and searches list the entries of an order one by one. A document command collects them
under their paths, where an entry on a path that is already there keeps its place and changes the
direction. So the last entry on a path gives the direction there, and the first one everywhere else.
-/

namespace PortableQuery

/-! ## Collecting by name -/

namespace Named

variable {α : Type} {xs : List (Named α)} {x : Named α}

theorem mem_put {name : String} {a : α} (h : (names xs).Nodup) (hx : x ∈ put name a xs) :
    x = ⟨name, a⟩ ∨ (x ∈ xs ∧ x.name ≠ name) := by
  induction xs with
  | nil => exact .inl (List.mem_singleton.mp hx)
  | cons y ys ih =>
    rw [names_cons, List.nodup_cons] at h
    rw [put] at hx
    split at hx
    · next hy =>
      refine (List.mem_cons.mp hx).imp_right fun hmem => ⟨List.mem_cons_of_mem _ hmem, ?_⟩
      rintro rfl
      exact h.1 (hy ▸ List.mem_map.mpr ⟨x, hmem, rfl⟩)
    · next hy =>
      obtain rfl | hmem := List.mem_cons.mp hx
      · exact .inr ⟨List.mem_cons_self, hy⟩
      · exact (ih h.2 hmem).imp_right fun hmem => ⟨List.mem_cons_of_mem _ hmem.1, hmem.2⟩

theorem get?_append (name : String) (xs ys : List (Named α)) :
    get? name (xs ++ ys) = (get? name xs).or (get? name ys) := by
  rw [get?, find?, List.find?_append, Option.map_or]
  rfl

theorem merge_concat (xs : List (Named α)) (x : Named α) :
    merge (xs ++ [x]) = put x.name x.value (merge xs) := by
  rw [merge, List.foldl_append]
  rfl

theorem nodup_names_merge (xs : List (Named α)) : (names (merge xs)).Nodup := by
  induction xs using List.reverseRecOn with
  | nil => exact List.nodup_nil
  | append_singleton xs x ih =>
    rw [merge_concat]
    exact nodup_names_put ih

/-- **What is collected under a name is what came last.** -/
theorem find?_of_mem_merge (h : x ∈ merge xs) : xs.reverse.find? (·.name == x.name) = some x := by
  induction xs using List.reverseRecOn with
  | nil => cases h
  | append_singleton xs y ih =>
    rw [merge_concat] at h
    rw [List.reverse_append, List.reverse_singleton, List.singleton_append]
    obtain rfl | ⟨hx, hne⟩ := mem_put (nodup_names_merge xs) h
    · exact List.find?_cons_of_pos (by simp)
    · exact (List.find?_cons_of_neg (by simpa using Ne.symm hne)).trans (ih hx)

end Named

theorem exists_map_eq {α β : Type} {f : α → β} {P : α → Prop} {bs : List β}
    (h : ∀ b ∈ bs, ∃ a, P a ∧ f a = b) : ∃ as : List α, as.map f = bs ∧ ∀ a ∈ as, P a := by
  induction bs with
  | nil => exact ⟨[], rfl, fun _ ha => absurd ha List.not_mem_nil⟩
  | cons b bs ih =>
    rw [List.forall_mem_cons] at h
    obtain ⟨⟨a, ha, rfl⟩, hrest⟩ := h
    obtain ⟨as, rfl, has⟩ := ih hrest
    exact ⟨a :: as, rfl, List.forall_mem_cons.mpr ⟨ha, has⟩⟩

theorem mapM_map_eq_some {α β : Type} {write : α → β} {read? : β → Option α}
    (h : ∀ a, read? (write a) = some a) (as : List α) : (as.map write).mapM read? = some as := by
  have hread : read? ∘ write = fun a => pure (id a) := funext h
  rw [List.mapM_map, hread, List.mapM_pure, List.map_id]
  rfl

/-- The entry under another name of its field. -/
def SortKey.rename (name : String → String) (k : SortKey) : SortKey := ⟨name k.field, k.direction⟩

/-- The order that a query asks for, its fields having other names. -/
def Query.orderOn (name : String → String) (q : Query) : List SortKey :=
  q.sorts.map (SortKey.rename name)

/-! ## Document commands -/

namespace Document

/-- The member of an entry in a sort document. -/
def sortEntry (k : SortKey) : Named Json := ⟨k.field, .int (directionNumber k.direction)⟩

/-- The entry of a member of a sort document. -/
def sortKey? (member : Named Json) : Option SortKey :=
  match member.value with
  | .int i =>
    if i = 1 then some ⟨member.name, .ascending⟩
    else if i = -1 then some ⟨member.name, .descending⟩
    else none
  | _ => none

/-- The order of a command: the members of its sort document. -/
def order? (command : Json) : Option (List SortKey) :=
  match command.member? "sort" with
  | none => some []
  | some (.object members) => members.mapM sortKey?
  | some _ => none

theorem sortKey?_sortEntry (k : SortKey) : sortKey? (sortEntry k) = some k := by
  obtain ⟨f, d⟩ := k
  cases d <;> rfl

/-- Every path that an order lists is collected, in the order of the first entries. -/
theorem names_merge_sortEntry (ks : List SortKey) :
    Named.names (Named.merge (ks.map sortEntry)) = (effective ks).map (·.field) := by
  induction ks using List.reverseRecOn with
  | nil => rfl
  | append_singleton ks k ih =>
    rw [List.map_append, List.map_singleton, Named.merge_concat, Named.names_put, ih,
      effective_concat]
    have hname : (sortEntry k).name = k.field := rfl
    rw [hname]
    by_cases hk : k.field ∈ ks.map (·.field)
    · rw [if_pos hk, if_pos (mem_fields_effective.mpr hk)]
    · rw [if_neg hk, if_neg (mt mem_fields_effective.mp hk), List.map_append, List.map_singleton]

theorem exists_lastOn? {ks : List SortKey} {m : Named Json}
    (h : m ∈ Named.merge (ks.map sortEntry)) :
    ∃ k, lastOn? k.field ks = some k ∧ sortEntry k = m := by
  have hfind := Named.find?_of_mem_merge h
  rw [← List.map_reverse, List.find?_map] at hfind
  obtain ⟨k, hk, rfl⟩ := Option.map_eq_some_iff.mp hfind
  exact ⟨k, hk, rfl⟩

/-- **What is collected from an order are its last entries, in the order of the first ones.** -/
theorem exists_lastDirections (ks : List SortKey) :
    ∃ order, Named.merge (ks.map sortEntry) = order.map sortEntry ∧ LastDirections order ks := by
  obtain ⟨order, horder, hlast⟩ := exists_map_eq fun m hm => exists_lastOn? hm
  refine ⟨order, horder.symm, ?_, hlast⟩
  rw [← names_merge_sortEntry, ← horder, Named.names, List.map_map]
  rfl

theorem member?_sort {config : CompilerConfig} {q : Query} {s : Statement Json Json}
    (h : (dialect (Except QueryError)).compile config q = .ok s) :
    s.statement.member? "sort" = Named.get? "sort" (sortMember config q.sorts) := by
  obtain ⟨l, -, hs⟩ := Dialect.exists_lowering_of_compile h
  obtain ⟨_, -, hs⟩ := bind_eq_ok.mp hs
  obtain rfl := pure_eq_ok.mp hs
  have hprojection : Named.get? "sort" (projectionMember config q.projection) = none := by
    unfold projectionMember
    split <;> rfl
  have hskip : Named.get? "sort" (countMember "skip" q.skip) = none := by
    unfold countMember
    split <;> rfl
  have hlimit : Named.get? "sort" (countMember "limit" q.limit) = none := by
    unfold countMember
    split <;> rfl
  dsimp only [Lowered.finish, Json.member?]
  rw [Named.get?_append, Named.get?_append, Named.get?_append, Named.get?_append, hprojection,
    hskip, hlimit, Option.or_none, Option.or_none, Option.or_none]
  rfl

/-- **The order of a compiled command has the last entries of its query's order, in the order of the
first ones.** -/
theorem exists_order {config : CompilerConfig} {q : Query} {s : Statement Json Json}
    (h : (dialect (Except QueryError)).compile config q = .ok s) :
    ∃ order, order? s.statement = some order ∧
      LastDirections order (q.orderOn (path config)) := by
  obtain ⟨order, hmerge, hlast⟩ := exists_lastDirections (q.orderOn (path config))
  refine ⟨order, ?_, hlast⟩
  have hread : order? s.statement =
      (Named.merge ((q.orderOn (path config)).map sortEntry)).mapM sortKey? := by
    rw [order?, member?_sort h, Query.orderOn,
      List.map_map]
    cases q.sorts <;> rfl
  rw [hread, hmerge, mapM_map_eq_some sortKey?_sortEntry]

end Document

/-! ## Searches -/

namespace Search

/-- The item of an entry in a sort array. -/
def sortItem (k : SortKey) : Json :=
  .single k.field (.single "order" (.string (directionWord k.direction)))

/-- The entry of an item of a sort array. -/
def sortKey? : Json → Option SortKey
  | .object [⟨path, body⟩] => do
    let word ← (← body.member? "order").string?
    if word = "asc" then some ⟨path, .ascending⟩
    else if word = "desc" then some ⟨path, .descending⟩
    else none
  | _ => none

/-- The order of a body: the items of its sort array. -/
def order? (body : Json) : Option (List SortKey) :=
  match body.member? "sort" with
  | none => some []
  | some (.array items) => items.mapM sortKey?
  | some _ => none

theorem sortKey?_sortItem (k : SortKey) : sortKey? (sortItem k) = some k := by
  obtain ⟨f, d⟩ := k
  cases d <;> rfl

theorem member?_sort {index : Index} {config : CompilerConfig} {q : Query}
    {s : Statement Json Json} (h : (dialect (Except QueryError) index).compile config q = .ok s) :
    s.statement.member? "sort" = Named.get? "sort" (sortMember config q.sorts) := by
  obtain ⟨l, -, hs⟩ := Dialect.exists_lowering_of_compile h
  rw [eq_of_assemble hs]
  have hsource : Named.get? "sort" (sourceMember config q.projection) = none := by
    unfold sourceMember
    split <;> rfl
  have hfrom : Named.get? "sort" (fromMember q.skip) = none := by
    unfold fromMember
    split <;> rfl
  have hframe : Named.get? "sort" (frameOf config q) =
      Named.get? "sort" (sortMember config q.sorts) := by
    rw [frameOf, Named.get?_append, Named.get?_append, Named.get?_append, hsource, hfrom,
      Option.or_none]
    exact Option.or_none
  exact hframe

/-- **The order of a compiled body is that of its query.** -/
theorem order?_of_compile {index : Index} {config : CompilerConfig} {q : Query}
    {s : Statement Json Json} (h : (dialect (Except QueryError) index).compile config q = .ok s) :
    order? s.statement = some (q.orderOn (path config)) := by
  rw [← mapM_map_eq_some sortKey?_sortItem, order?, member?_sort h,
    Query.orderOn, List.map_map]
  cases q.sorts <;> rfl

end Search

/-! ## Statements in text -/

/-- **The order of a compiled SQL statement is that of its query.** -/
theorem Sql.order_of_compile {schema : Option String} {config : CompilerConfig} {q : Query}
    {s : Statement String Value}
    (h : (dialect (Except QueryError) schema).compile config q = .ok s) :
    (parse? s.statement).map (·.order) = some q.sorts := by
  obtain ⟨l, hl, hs⟩ := Dialect.exists_lowering_of_compile h
  obtain rfl := Except.ok.inj hs
  obtain ⟨g, hg⟩ : ∃ g, Option.Rel (Grammar.Writes quotes predicate?) l.filter g := by
    cases hl with
    | empty _ => exact ⟨none, .none⟩
    | whole _ _ hc =>
      obtain ⟨-, -, g, hg, -⟩ := means_lowerCondition hc ⟨rfl, rfl⟩
      exact ⟨some g, .some hg⟩
    | split _ hkeys _ _ => cases hkeys
  rw [parse_assemble hg]
  rfl

/-- **The order of a compiled AQL statement is that of its query.** -/
theorem Aql.order_of_compile {config : CompilerConfig} {q : Query} {s : Statement String Json}
    (h : (dialect (Except QueryError)).compile config q = .ok s) :
    (parse? s.statement).map (·.order) = some (q.orderOn (attributeName config)) := by
  obtain ⟨l, hl, hs⟩ := Dialect.exists_lowering_of_compile h
  obtain ⟨keys, rest, -, -, hrest⟩ := Dialect.exists_divided rfl hl
  obtain ⟨l', hbind, -⟩ := bind_eq_ok.mp hs
  obtain ⟨g, hg, -⟩ := exists_condition hrest hbind
  rw [(parse_assemble hbind hs hg).2]
  rfl

/-! ## All stores -/

/-- **The order of a compiled SQL statement, AQL statement or search body is the one that its query
asks for, entry by entry. The order of a document command has the same paths in the same turn, each
with its last direction, and so it means what was asked for if and only if the first and the last
entry of every path are the same.** -/
theorem orders_read_back (config : CompilerConfig) (q : Query) :
    (∀ schema s, (Sql.dialect (Except QueryError) schema).compile config q = .ok s →
      (Sql.parse? s.statement).map (·.order) = some q.sorts) ∧
    (∀ s, (Aql.dialect (Except QueryError)).compile config q = .ok s →
      (Aql.parse? s.statement).map (·.order) =
        some (q.orderOn (Aql.attributeName config))) ∧
    (∀ index s, (Search.dialect (Except QueryError) index).compile config q = .ok s →
      Search.order? s.statement = some (q.orderOn (Search.path config))) ∧
    ∀ s, (Document.dialect (Except QueryError)).compile config q = .ok s →
      ∃ order, Document.order? s.statement = some order ∧
        LastDirections order (q.orderOn (Document.path config)) ∧
        (SameOrder order (q.orderOn (Document.path config)) ↔
          ∀ k ∈ q.orderOn (Document.path config),
            firstOn? k.field (q.orderOn (Document.path config)) =
              lastOn? k.field (q.orderOn (Document.path config))) := by
  refine ⟨fun schema s hs => Sql.order_of_compile hs, fun s hs => Aql.order_of_compile hs,
    fun index s hs => Search.order?_of_compile hs, fun s hs => ?_⟩
  obtain ⟨order, horder, hlast⟩ := Document.exists_order hs
  exact ⟨order, horder, hlast, hlast.sameOrder_iff⟩

/-- A query for an order that lists the identity twice, under two names. -/
def sortedTwice : Query where
  entity := "Person"
  sorts := [⟨"id", .descending⟩, ⟨"age", .ascending⟩, ⟨"_id", .descending⟩]

theorem orders_read_back_sortedTwice :
    (∃ s, (Sql.dialect (Except QueryError) none).compile { idField := "id" } sortedTwice = .ok s ∧
      (Sql.parse? s.statement).map (·.order) = some sortedTwice.sorts) ∧
    (∃ s, (Aql.dialect (Except QueryError)).compile { idField := "id" } sortedTwice = .ok s ∧
      (Aql.parse? s.statement).map (·.order) =
        some [⟨"_key", .descending⟩, ⟨"age", .ascending⟩, ⟨"_id", .descending⟩]) ∧
    (∃ s, (Search.dialect (Except QueryError) ⟨"catalog", "kind"⟩).compile { idField := "id" }
        sortedTwice = .ok s ∧
      Search.order? s.statement =
        some [⟨"_id", .descending⟩, ⟨"age", .ascending⟩, ⟨"_id", .descending⟩]) ∧
    ∃ s, (Document.dialect (Except QueryError)).compile { idField := "id" } sortedTwice = .ok s ∧
      ∃ order, Document.order? s.statement = some order ∧
        SameOrder order [⟨"_id", .descending⟩, ⟨"age", .ascending⟩, ⟨"_id", .descending⟩] := by
  obtain ⟨hsql, haql, hsearch, hdocument⟩ := orders_read_back { idField := "id" } sortedTwice
  refine ⟨⟨_, rfl, hsql none _ rfl⟩, ⟨_, rfl, haql _ rfl⟩, ⟨_, rfl, hsearch _ _ rfl⟩, ?_⟩
  obtain ⟨s, hs⟩ : ∃ s, (Document.dialect (Except QueryError)).compile { idField := "id" }
      sortedTwice = .ok s := ⟨_, rfl⟩
  obtain ⟨order, horder, -, hsame⟩ := hdocument s hs
  exact ⟨s, hs, order, horder, hsame.mpr (by decide)⟩

/-- **Of two entries on a field the command takes the direction of the second one, and so turns
around the order that was asked for.** -/
theorem directions_overwritten :
    ∃ s, (Document.dialect (Except QueryError)).compile {}
        { entity := "Person", sorts := [⟨"age", .ascending⟩, ⟨"age", .descending⟩] } = .ok s ∧
      Document.order? s.statement = some [⟨"age", .descending⟩] ∧
      ¬ SameOrder [⟨"age", .descending⟩] [⟨"age", .ascending⟩, ⟨"age", .descending⟩] :=
  ⟨_, rfl, rfl, fun h => absurd (sameOrder_iff.mp h) (by decide)⟩

end PortableQuery
