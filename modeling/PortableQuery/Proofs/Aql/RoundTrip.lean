import PortableQuery.Proofs.Aql.Filter

set_option autoImplicit false

/-!
# AQL statements are read back

* **`Aql.parse_assemble`**: an assembled statement is read back in all its parts;
* **`Aql.parse_loop`**: a compiled statement is read back as the query.
-/

namespace PortableQuery.Aql

open Lexer Grammar

variable {config : CompilerConfig}

/-! ## Clauses -/

theorem renders_source (collection : String) (byKey : Bool) :
    Renders quotes (· == .sign "(") source? (source collection byKey)
      (collection, if byKey then some (.one keysName) else none) := by
  cases byKey with
  | false =>
    obtain ⟨t, ht, hn⟩ := exists_spells_identifier collection
    refine ⟨[t], ht, fun rest hrest => ?_⟩
    -- even a collection of that name is no function, for no parenthesis follows
    have hdocument : (expect? (Token.isWord "DOCUMENT") (t :: rest)).bind
        (expect? (· == .sign "(")) = none := by
      rw [expect?]
      split
      · exact expect?_eq_none hrest
      · rfl
    rw [List.singleton_append, source?, hdocument]
    simp only [hn rest, Option.bind_eq_bind, Option.bind_some]
    rfl
  | true =>
    have hopen : Closes quotes "DOCUMENT(" [.word "DOCUMENT", .sign "("] := rfl
    have hclose : Closes quotes (", @" ++ keysName ++ ")")
        [.sign ",", .parameter '@' keysName, .sign ")"] := rfl
    have htext : source collection true =
        "DOCUMENT(" ++ (JsonText.quoted collection ++ (", @" ++ keysName ++ ")")) := by
      simp only [source, if_true, String.append_assoc]
    rw [htext]
    exact ⟨_, hopen.append ((spells_quoted collection).append hclose.spells (.inr rfl)),
      fun _ _ => rfl⟩

theorem writesClause_filter {filter : Option String}
    {g : Option (Formula (Comparison (Slot String)))}
    (h : Option.Rel (Writes quotes predicate?) filter g) :
    WritesClause quotes "FILTER" joins (formula? predicate?) (filterClause filter) g := by
  cases h with
  | none => exact writesClause_none
  | some h =>
    obtain ⟨ts, hs, he⟩ := h
    have hfilter : Closes quotes " FILTER " [.word "FILTER"] := rfl
    exact writesClause_some hfilter rfl rfl hs he.reads_formula

theorem renders_sortKey (k : SortKey) :
    Renders quotes anywhere (sortKey? attribute?)
      (path config k.field ++ " " ++ directionWord k.direction)
      ⟨attributeName config k.field, k.direction⟩ := by
  obtain ⟨t, ht, hread⟩ := renders_path config k.field
  refine Grammar.renders_sortKey ⟨_, ht, fun rest _ => hread rest⟩ ?_ fun ts => ?_
  · cases k.direction <;> rfl
  · cases k.direction <;> rfl

theorem writesClause_sort (config : CompilerConfig) (sorts : List SortKey) :
    WritesClause quotes "SORT" (fun t => isComma t || anywhere t)
      (separated? isComma (sortKey? attribute?)) (sortClause config sorts)
      (if sorts.isEmpty then none
        else some (sorts.map fun s => ⟨attributeName config s.field, s.direction⟩)) := by
  cases sorts with
  | nil => exact writesClause_none
  | cons k ks =>
    have hitems : List.Forall₂ (Renders quotes anywhere (sortKey? attribute?))
        ((k :: ks).map fun k => path config k.field ++ " " ++ directionWord k.direction)
        ((k :: ks).map fun k => ⟨attributeName config k.field, k.direction⟩) := by
      rw [List.forall₂_map_left_iff, List.forall₂_map_right_iff, List.forall₂_same]
      exact fun k _ => renders_sortKey k
    obtain ⟨ts, hs, hread⟩ := renders_separated hitems (by simp) rfl
    have hsort : Closes quotes " SORT " [.word "SORT"] := rfl
    exact writesClause_some hsort rfl rfl hs hread

/-- The limit that a window is written with. -/
def windowLimit (skip limit : UInt64) : Nat :=
  if skip ≠ 0 ∧ limit = 0 then unboundedCount else limit.toNat

theorem limitClause_of_ne {skip : UInt64} (h : skip ≠ 0) (limit : UInt64) :
    limitClause skip limit =
      " LIMIT " ++ (toString skip.toNat ++ (", " ++ toString (windowLimit skip limit))) := by
  rw [limitClause, if_neg h, windowLimit]
  by_cases hl : limit = 0
  · rw [if_pos hl, if_pos ⟨h, hl⟩]
    simp only [String.append_assoc]
    rfl
  · rw [if_neg hl, if_neg fun hand => hl hand.2]
    simp only [String.append_assoc]
    rfl

theorem writesClause_limit (skip limit : UInt64) :
    WritesClause quotes "LIMIT" isComma window? (limitClause skip limit)
      (if skip = 0 ∧ limit = 0 then none else some (skip.toNat, windowLimit skip limit)) := by
  have hlimit : Closes quotes " LIMIT " [.word "LIMIT"] := rfl
  have hcomma : Closes quotes ", " [.sign ","] := rfl
  by_cases hs : skip = 0
  · subst hs
    by_cases hl : limit = 0
    · subst hl
      exact writesClause_none
    · rw [limitClause, if_pos rfl, if_neg hl, if_neg fun hand => hl hand.2]
      refine writesClause_some hlimit rfl rfl (spells_number limit.toNat) fun rest hrest => ?_
      simp only [List.nil_append, List.singleton_append, window?, count?, Option.bind_eq_bind,
        Option.bind_some, expect?_eq_none hrest]
      rfl
  · rw [limitClause_of_ne hs, if_neg fun hand => hs hand.1]
    have hskip : Spells quotes (toString skip.toNat) [.number skip.toNat] := spells_number _
    have hbody := hskip.append
      (hcomma.append (spells_number (windowLimit skip limit)))
      (.inr (StartsCutting.append (a := ", ") rfl _))
    exact writesClause_some hlimit rfl rfl hbody fun rest _ => rfl

theorem trails_returnClause (config : CompilerConfig) (projection : List String) :
    ∃ ts, Trails quotes ["RETURN"] (returnClause config projection) ts ∧
      return? ts = some (projection.map (attributeName config), []) := by
  have hheads (ts : List Token) : Heads ["RETURN"] (.word "RETURN" :: ts) :=
    fun t ht => ⟨"RETURN", by simp, (Option.some.inj ht).symm⟩
  cases projection with
  | nil =>
    have htext : returnClause config [] = " RETURN " ++ loopVariable := rfl
    rw [htext]
    exact ⟨[.word "RETURN", .word "d"], ⟨rfl, .inr rfl, hheads _⟩, rfl⟩
  | cons f fs =>
    have hitems : List.Forall₂ (Renders quotes anywhere text?)
        ((f :: fs).map fun f => JsonText.quoted (if config.isIdField f then keyAttribute else f))
        ((f :: fs).map (attributeName config)) := by
      rw [List.forall₂_map_left_iff, List.forall₂_map_right_iff, List.forall₂_same]
      intro f _
      rw [attributeName_eq]
      exact ⟨_, spells_quoted _, fun _ _ => rfl⟩
    obtain ⟨ts, hs, hread⟩ := renders_separated hitems (by simp) rfl
    have hkeep : Closes quotes (" RETURN KEEP(" ++ loopVariable ++ ", ")
        [.word "RETURN", .word "KEEP", .sign "(", .word "d", .sign ","] := rfl
    have hcut : StartsCutting (" RETURN KEEP(" ++ loopVariable ++ ", ") := rfl
    have hclose : Closes quotes ")" [.sign ")"] := rfl
    have htext : returnClause config (f :: fs) = " RETURN KEEP(" ++ loopVariable ++ ", " ++
        (String.intercalate ", " ((f :: fs).map fun f =>
          JsonText.quoted (if config.isIdField f then keyAttribute else f)) ++ ")") := by
      simp only [returnClause, List.isEmpty_cons, String.append_assoc]
      rfl
    rw [htext]
    refine ⟨_, ⟨hkeep.append (hs.append hclose.spells (.inr rfl)), .inr (hcut.append _), hheads _⟩,
      ?_⟩
    have hreturn (us : List Token) : return? (.word "RETURN" :: .word "KEEP" :: .sign "(" ::
        .word "d" :: .sign "," :: us) = (separated? isComma text? us).bind fun r =>
          (expect? (· == .sign ")") r.2).bind fun us => some (r.1, us) := rfl
    simp only [List.cons_append, List.nil_append]
    rw [hreturn, hread _ rfl]
    rfl

/-! ## Statements -/

theorem getD_sorts {α : Type} (sorts : List SortKey) (f : SortKey → α) :
    (if sorts.isEmpty then none else some (sorts.map f)).getD [] = sorts.map f := by
  cases sorts <;> rfl

theorem getD_window (skip limit : UInt64) :
    (if skip = 0 ∧ limit = 0 then none else some (skip.toNat, windowLimit skip limit)).getD (0, 0) =
      (skip.toNat, windowLimit skip limit) := by
  split
  · next h =>
    obtain ⟨rfl, rfl⟩ := h
    rfl
  · rfl

/-- **An assembled statement is read back in all its parts.** -/
theorem parse_assemble {q : Query} {l l' : Lowered String Json} {s : Statement String Json}
    (hl : bindKeys l = .ok l') (hs : assemble config q l = .ok s)
    {g : Option (Formula (Comparison (Slot String)))}
    (h : Option.Rel (Writes quotes predicate?) l'.filter g) :
    s.parameters = l'.parameters ∧
    parse? s.statement = some {
      collection := q.entity
      keys := if l'.keyLookup.isEmpty then none else some (.one keysName)
      condition := g
      order := q.sorts.map fun s => ⟨attributeName config s.field, s.direction⟩
      skip := q.skip.toNat
      limit := windowLimit q.skip q.limit
      keep := q.projection.map (attributeName config) } := by
  obtain ⟨l₁, hl₁, hs⟩ := bind_eq_ok.mp hs
  obtain rfl := Except.ok.inj (hl.symm.trans hl₁)
  obtain rfl := pure_eq_ok.mp hs
  refine ⟨rfl, ?_⟩
  have hfor : Closes quotes ("FOR " ++ loopVariable ++ " IN ")
      [.word "FOR", .word "d", .word "IN"] := rfl
  obtain ⟨cs, hcs, hsource⟩ := renders_source q.entity (!l'.keyLookup.isEmpty)
  obtain ⟨rs, hrs, hreturn⟩ := trails_returnClause config q.projection
  -- every clause is read in front of those behind it, which start with later keywords
  obtain ⟨ls, hls, hlimit⟩ := (writesClause_limit q.skip q.limit).prepend hrs (by decide)
  obtain ⟨os, hos, hsort⟩ := (writesClause_sort config q.sorts).prepend hls (by decide)
  obtain ⟨fs, hfs, hfilter⟩ := (writesClause_filter h).prepend hos (by decide)
  have htext := hfor.append (hcs.append hfs.spells hfs.cuts)
  have hsource := hsource fs (hfs.heads.any_eq_false (by decide))
  have hread : loop? ([.word "FOR", .word "d", .word "IN"] ++ (cs ++ fs)) =
      some ({
        collection := q.entity
        keys := if l'.keyLookup.isEmpty then none else some (.one keysName)
        condition := g
        order := q.sorts.map fun s => ⟨attributeName config s.field, s.direction⟩
        skip := q.skip.toNat
        limit := windowLimit q.skip q.limit
        keep := q.projection.map (attributeName config) }, []) := by
    simp only [List.cons_append, List.nil_append]
    rw [loop?, expect?_cons (by decide)]
    simp only [Option.bind_eq_bind, Option.bind_some]
    rw [expect?_cons (by decide)]
    simp only [Option.bind_some]
    rw [expect?_cons (by decide)]
    simp only [Option.bind_some, hsource, hfilter, hsort, hlimit, hreturn, getD_sorts, getD_window,
      Option.pure_def]
    cases l'.keyLookup <;> rfl
  have hstatement : "FOR " ++ loopVariable ++ " IN " ++ source q.entity (!l'.keyLookup.isEmpty) ++
      filterClause l'.filter ++ sortClause config q.sorts ++ limitClause q.skip q.limit ++
      returnClause config q.projection = "FOR " ++ loopVariable ++ " IN " ++
        (source q.entity (!l'.keyLookup.isEmpty) ++ (filterClause l'.filter ++
          (sortClause config q.sorts ++ (limitClause q.skip q.limit ++
            returnClause config q.projection)))) := by
    simp only [String.append_assoc]
  rw [parse?, Lowered.finish, hstatement, htext]
  simp only [Option.bind_eq_bind, Option.bind_some, hread]
  rfl

theorem bindKeys_eq_ok {l l' : Lowered String Json} (h : bindKeys l = .ok l') :
    l'.filter = l.filter ∧ l'.keyLookup = l.keyLookup ∧ l.parameters <+: l'.parameters ∧
      (l.keyLookup ≠ [] →
        placeholders.look l'.parameters keysName = some (.array l.keyLookup)) := by
  unfold bindKeys at h
  split at h
  · next hempty =>
    obtain rfl := Except.ok.inj h
    exact ⟨rfl, rfl, List.prefix_rfl, fun hne => absurd (List.isEmpty_iff.mp hempty) hne⟩
  · split at h
    · cases h
    · next hfree =>
      obtain rfl := Except.ok.inj h
      refine ⟨rfl, rfl, List.prefix_append .., fun _ => ?_⟩
      rw [← List.append_nil (l.parameters ++ _)]
      exact look_append (Bool.eq_false_iff.mpr hfree)

theorem exists_keys {scope : Scope} {l l' : Lowered String Json} {keys : Option Value}
    (hkeys : (dialect (Except QueryError)).KeysConverted scope keys l.keyLookup)
    (h : bindKeys l = .ok l') :
    ∃ js : Option Json, keys.map Value.plain? = js.map some ∧
      (if l'.keyLookup.isEmpty then none else some (.one keysName)).map
        (language.value? l'.parameters) = js.map some := by
  obtain ⟨-, hlookup, -, hlook⟩ := bindKeys_eq_ok h
  generalize l.keyLookup = ns at hkeys hlookup hlook
  rw [hlookup]
  cases hkeys with
  | none => exact ⟨none, rfl, rfl⟩
  | @some items ns hne hns =>
    have hne' : ns ≠ [] := by
      rintro rfl
      exact hne (List.forall₂_nil_right_iff.mp hns)
    have hplain := Value.plain?_list (hns.imp fun _ _ => toPlain_of_toNative)
    refine ⟨some (.array ns), by rw [Option.map_some, hplain, Option.map_some], ?_⟩
    rw [if_neg (by simpa using hne'), Option.map_some, Option.map_some, ← hlook hne']
    rfl

theorem exists_condition {entity : String} {l l' : Lowered String Json} {rest : Option Condition}
    (hrest : (dialect (Except QueryError)).RestLowered config entity rest l.filter l.parameters)
    (h : bindKeys l = .ok l') :
    ∃ g, Option.Rel (Writes quotes predicate?) l'.filter g ∧
      ∃ r : Option (Formula (Comparison Json)),
        rest.map (expected config) = r.map (·.map (Comparison.map some)) ∧
        g.map (·.map (Comparison.map (language.value? l'.parameters))) =
          r.map (·.map (Comparison.map some)) := by
  obtain ⟨hfilter, -, hprefix, -⟩ := bindKeys_eq_ok h
  rw [hfilter]
  generalize l.filter = filter, l.parameters = ps at hrest hprefix
  cases hrest with
  | none => exact ⟨none, .none, none, rfl, rfl⟩
  | @some c f b hc =>
    obtain ⟨-, ⟨r, hr⟩, g, hg, hmeans⟩ := means_lowerCondition hc ⟨rfl, rfl⟩
    have hmeans : g.map (Comparison.map (language.value? l'.parameters)) = expected config c :=
      hmeans l'.parameters hprefix
    refine ⟨some g, .some hg, some r, ?_, ?_⟩
    · rw [Option.map_some, Option.map_some, hr]
    · rw [Option.map_some, Option.map_some, hmeans, hr]

/-- **A compiled statement, its placeholders resolved among its parameters, is read back as the
query: its keys, if any are looked up, and the rest of its condition.** -/
theorem parse_loop {q : Query} {s : Statement String Json}
    (h : (dialect (Except QueryError)).compile config q = .ok s) :
    ∃ keys rest, Divided config q.condition keys rest ∧ ∃ r : Loop Json,
      (parse? s.statement).map (·.map (language.value? s.parameters)) = some (r.map some) ∧
      (Loop.ofQuery config q keys rest).map Value.plain? = r.map some := by
  obtain ⟨l, hl, hs⟩ := Dialect.exists_lowering_of_compile h
  obtain ⟨keys, rest, hdivided, hkeys, hrest⟩ := Dialect.exists_divided rfl hl
  obtain ⟨l', hbind, -⟩ := bind_eq_ok.mp hs
  obtain ⟨js, hjs, hkeysRead⟩ := exists_keys hkeys hbind
  obtain ⟨g, hg, r, hr, hconditionRead⟩ := exists_condition hrest hbind
  obtain ⟨hparameters, hparse⟩ := parse_assemble hbind hs hg
  refine ⟨keys, rest, hdivided, {
    collection := q.entity
    keys := js
    condition := r
    order := q.sorts.map fun s => ⟨attributeName config s.field, s.direction⟩
    skip := q.skip.toNat
    limit := windowLimit q.skip q.limit
    keep := q.projection.map (attributeName config) }, ?_, ?_⟩
  · rw [hparse, hparameters, Option.map_some]
    simp only [Loop.map, hkeysRead, hconditionRead]
  · simp only [Loop.map, Loop.ofQuery, hjs, Option.map_map, ← hr]
    rfl

/-- A query of names that are keywords, or that would end their own position, by key. -/
def hostileQuery : Query where
  entity := "a`\\\", @keys) FILTER true //"
  condition := some (.join .and [
    .not (.predicate .between ⟨"x <= 1 OR y", .list [.int 1, .int 2]⟩),
    .predicate .oneOf ⟨"_id", .list [.text "\"1\"", .int 2]⟩,
    .join .or [.predicate .like ⟨"`d`.\\", .text "%"⟩],
    .predicate .equals ⟨"_id", .null⟩])
  projection := ["_id", "\"), (d", "RETURN"]
  sorts := [⟨"NOT", .descending⟩, ⟨"_id", .ascending⟩]
  skip := 3

theorem parse_loop_hostileQuery :
    ∃ s, (dialect (Except QueryError)).compile {} hostileQuery = .ok s ∧
      ∃ keys rest, Divided {} hostileQuery.condition keys rest ∧ ∃ r : Loop Json,
        (parse? s.statement).map (·.map (language.value? s.parameters)) = some (r.map some) ∧
        (Loop.ofQuery {} hostileQuery keys rest).map Value.plain? = r.map some :=
  ⟨_, rfl, parse_loop rfl⟩

end PortableQuery.Aql
