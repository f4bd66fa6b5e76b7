import PortableQuery.Proofs.Aql.RoundTrip
import PortableQuery.Proofs.Statement.Mention

set_option autoImplicit false

/-!
# Placeholders of AQL statements

The placeholders of a statement are the one for its keys, if any are looked up, and then those of
its filter, which are named by fields and numbered from one on, in the order in which the operands
were bound. The keys are bound behind everything else.
-/

namespace PortableQuery.Aql

open Lexer

variable {config : CompilerConfig} {entity : String}

/-! ## Predicates -/

theorem placeholder?_of_name? {t : Token} {name : String} (h : name? [t] = some (name, [])) :
    t.placeholder? = none := by
  cases t with
  | name | word => rfl
  | text | parameter | number | sign => cases h

theorem mentions_identifier (name : String) : Mentions quotes (identifier name) [] := by
  obtain ⟨t, ht, hn⟩ := exists_spells_identifier name
  refine ⟨[t], ht, ?_⟩
  rw [List.filterMap_cons_none (placeholder?_of_name? (hn []))]
  rfl

theorem mentions_path (config : CompilerConfig) (name : String) :
    Mentions quotes (path config name) [] := by
  have hd : Closes quotes (loopVariable ++ ".") [.word "d", .sign "."] := rfl
  have hkey : Spells quotes keyAttribute [.word "_key"] := rfl
  unfold path
  split
  · exact hd.mentions_append (mentions_of_spells hkey)
  · exact hd.mentions_append (mentions_identifier name)

theorem placed : Placed quotes (.named '@') := by
  intro field n
  exact mentions_of_spells (spells_placeholder (isParameterName_parameterName field n))

theorem mentions_comparison {o : Operator} (hb : o ≠ .between) (hi : o ≠ .oneOf)
    (field text : String) {ps : List String} (h : Mentions quotes text ps) :
    Mentions quotes (path config field ++ " " ++ comparison o ++ " " ++ text) ps := by
  have hnone : [comparisonToken o].filterMap Token.placeholder? = [] := by cases o <;> rfl
  exact (mentions_path config field).compared (closes_comparison hb hi) hnone h

theorem mentions_between (field : String) {l u : String} {ps qs : List String}
    (hl : Mentions quotes l ps) (hu : Mentions quotes u qs) :
    Mentions quotes
      ("(" ++ path config field ++ " >= " ++ l ++ " AND " ++ path config field ++ " <= " ++ u ++
        ")") (ps ++ qs) := by
  have hgte : Closes quotes " >= " [.sign ">="] := rfl
  have hlte : Closes quotes " <= " [.sign "<="] := rfl
  have hand : Closes quotes " AND " [.word "AND"] := rfl
  have hlower := (mentions_path config field).restricted hgte rfl rfl hl
  have hupper := (mentions_path config field).restricted hlte rfl rfl hu
  have hboth := (hlower.append (hand.adds_append rfl rfl hupper)).parenthesized
  simp only [String.append_assoc] at hboth ⊢
  exact hboth.mentions

theorem mentions_oneOf (field : String) {text : String} {ps : List String}
    (h : Mentions quotes text ps) :
    Mentions quotes (path config field ++ " IN [" ++ text ++ "]") ps := by
  have hin : Closes quotes " IN [" [.word "IN", .sign "["] := rfl
  have hclose : Adds quotes "]" [] := ⟨⟨[.sign "]"], rfl, rfl⟩, .inr rfl⟩
  have hlist := (mentions_path config field).restricted hin rfl rfl (h.append hclose)
  simp only [String.append_assoc, List.append_nil] at hlist ⊢
  exact hlist

theorem binds_single {o : Operator} (hb : o ≠ .between) (hi : o ≠ .oneOf) {field text : String}
    {n : Json} {b b' : Binder Json} (hstyle : b.style = .named '@')
    (h : lowerPredicate ⟨o, field, path config field, .single n⟩ b = .ok (text, b')) :
    b' = b.extend [⟨field, n⟩] ∧
      Mentions quotes text (placeholdersFrom (.named '@') b.nextOrdinal
        [(⟨field, n⟩ : Named Json)]) := by
  obtain ⟨x, hx, rfl⟩ := lowerPredicate_single hb hi h
  obtain ⟨rfl, rfl⟩ := Binder.bind_eq_ok hx
  rw [hstyle]
  exact ⟨rfl, mentions_comparison hb hi field _ (placed _ _)⟩

/-- **A predicate binds its operands, and has their placeholders.** -/
theorem binds_predicate {o : Operator} {e : Element} {p : Predicate Json} {b b' : Binder Json}
    {text : String} (hp : (dialect (Except QueryError)).predicate config entity o e = .ok p)
    (hl : lowerPredicate p b = .ok (text, b')) (hb : b.style = .named '@') :
    ∃ us, b' = b.extend us ∧
      List.Forall₂ ((dialect (Except QueryError)).Bound (fun _ v => v) entity)
        ((Comparison.operands Value.items? ⟨o, e.name, e.value⟩).filter fun _ => true) us ∧
      Mentions quotes text (placeholdersFrom (.named '@') b.nextOrdinal us) := by
  obtain ⟨-, x, hx, rfl⟩ := Dialect.converts_of_predicate_eq_ok hp
  have hbound := hx.bound fun _ v => v
  generalize e.value = v at hx hbound
  rw [List.filter_true]
  cases hx with
  | range hlower hupper =>
    obtain ⟨rfl, rfl⟩ := Binder.bindPair_eq_ok
      (fun l u => "(" ++ path config e.name ++ " >= " ++ l ++ " AND " ++ path config e.name ++ " <= " ++ u ++ ")") hl
    refine ⟨_, rfl, hbound, ?_⟩
    rw [hb]
    exact mentions_between e.name (placed e.name _) (placed e.name _)
  | choice _ _ hns =>
    obtain ⟨rfl, rfl⟩ := Binder.bindList_eq_ok
      (fun list => path config e.name ++ " IN [" ++ list ++ "]") hl
    refine ⟨_, rfl, hbound, ?_⟩
    rw [hb]
    exact mentions_oneOf e.name (mentions_placeholders placed _ _)
  | pattern _ =>
    obtain ⟨rfl, hmentions⟩ := binds_single (by decide) (by decide) hb hl
    exact ⟨_, rfl, hbound, hmentions⟩
  | value hbetween honeOf _ _ =>
    obtain ⟨rfl, hmentions⟩ := binds_single hbetween honeOf hb hl
    exact ⟨_, rfl, hbound, hmentions⟩

/-- **Predicates, joins and negations use the operands in their order.** -/
def binding : (dialect (Except QueryError)).Binding where
  binds _ := true
  translate _ v := v
  uses n us text := Mentions quotes text (placeholdersFrom (.named '@') n us)
  predicate := binds_predicate
  join {c _ _ _ _} _ hfs hf := by
    obtain rfl := Except.ok.inj hf
    exact mentions_join c hfs
  negate hf hg := by
    obtain rfl := Except.ok.inj hg
    exact hf.negated

/-! ## Statements -/

/-- The placeholder of the keys, if any are looked up. -/
def keysPlaceholder (byKey : Bool) : List String := if byKey then ["@" ++ keysName] else []

theorem mentions_source (collection : String) (byKey : Bool) :
    Mentions quotes (source collection byKey) (keysPlaceholder byKey) := by
  cases byKey with
  | false => exact mentions_identifier collection
  | true =>
    have hopen : Closes quotes "DOCUMENT(" [.word "DOCUMENT", .sign "("] := rfl
    have hkeys : Adds quotes (", @" ++ keysName ++ ")") ["@" ++ keysName] :=
      ⟨⟨[.sign ",", .parameter '@' keysName, .sign ")"], rfl, rfl⟩, .inr rfl⟩
    have hdocument := hopen.mentions_append
      ((mentions_of_spells (spells_quoted collection)).append hkeys)
    have htext : source collection true =
        "DOCUMENT(" ++ (JsonText.quoted collection ++ (", @" ++ keysName ++ ")")) := by
      simp only [source, if_true, String.append_assoc]
    rw [htext]
    exact hdocument

theorem adds_filterClause {filter : Option String} {us : List (Named Json)}
    (h : binding.UsedBy us filter) :
    Adds quotes (filterClause filter) (placeholdersFrom (.named '@') 1 us) := by
  have hfilter : Closes quotes " FILTER " [.word "FILTER"] := rfl
  exact adds_clause (fun _ _ huses => huses) hfilter rfl rfl rfl (fun _ => rfl) h

theorem mentions_sortKey (s : SortKey) :
    Mentions quotes (path config s.field ++ " " ++ directionWord s.direction) [] := by
  apply (mentions_path config s.field).followed
  cases s.direction <;> rfl

theorem adds_sortClause (config : CompilerConfig) (sorts : List SortKey) :
    Adds quotes (sortClause config sorts) [] := by
  cases sorts with
  | nil => exact adds_empty
  | cons s ss =>
    have hsort : Closes quotes " SORT " [.word "SORT"] := rfl
    exact hsort.adds_append rfl rfl (mentions_list fun s _ => mentions_sortKey s)

theorem adds_limitClause (skip limit : UInt64) : Adds quotes (limitClause skip limit) [] := by
  have hlimit : Closes quotes " LIMIT " [.word "LIMIT"] := rfl
  have hcomma : Closes quotes ", " [.sign ","] := rfl
  have hcount (n : Nat) : Mentions quotes (toString n) [] := mentions_of_spells (spells_number n)
  by_cases hs : skip = 0
  · by_cases hl : limit = 0
    · rw [limitClause, if_pos hs, if_pos hl]
      exact adds_empty
    · rw [limitClause, if_pos hs, if_neg hl]
      exact hlimit.adds_append rfl rfl (hcount limit.toNat)
  · rw [limitClause_of_ne hs]
    have hwindow := (hcount skip.toNat).restricted hcomma rfl rfl (hcount (windowLimit skip limit))
    exact hlimit.adds_append rfl rfl hwindow

theorem adds_returnClause (config : CompilerConfig) (projection : List String) :
    Adds quotes (returnClause config projection) [] := by
  cases projection with
  | nil =>
    have htext : returnClause config [] = " RETURN " ++ loopVariable := rfl
    have hreturn : Spells quotes (" RETURN " ++ loopVariable) [.word "RETURN", .word "d"] := rfl
    rw [htext]
    exact ⟨mentions_of_spells hreturn, .inr rfl⟩
  | cons f fs =>
    have hkeep : Closes quotes (" RETURN KEEP(" ++ loopVariable ++ ", ")
        [.word "RETURN", .word "KEEP", .sign "(", .word "d", .sign ","] := rfl
    have hclose : Adds quotes ")" [] := ⟨⟨[.sign ")"], rfl, rfl⟩, .inr rfl⟩
    have hattributes : Mentions quotes (String.intercalate ", " ((f :: fs).map fun f =>
        JsonText.quoted (if config.isIdField f then keyAttribute else f))) [] :=
      mentions_list fun f _ => mentions_of_spells (spells_quoted _)
    have hreturn := hkeep.adds_append rfl rfl (hattributes.append hclose)
    simp only [String.append_assoc, List.append_nil] at hreturn
    simpa only [returnClause, List.isEmpty_cons, Bool.false_eq_true, if_false,
      String.append_assoc] using hreturn

/-- **A statement has the placeholders of its keys and of its filter, and no others. The keys are
bound behind everything else.** -/
theorem mentions_assemble {q : Query} {l : Lowered String Json} {s : Statement String Json}
    {us : List (Named Json)} (hs : assemble config q l = .ok s)
    (h : binding.UsedBy us l.filter) :
    s.keyLookup = l.keyLookup ∧
    s.parameters = l.parameters ++
      (if s.keyLookup.isEmpty then [] else [⟨some keysName, .array s.keyLookup⟩]) ∧
    Mentions quotes s.statement
      (keysPlaceholder (!s.keyLookup.isEmpty) ++ placeholdersFrom (.named '@') 1 us) := by
  obtain ⟨l', hbind, hs⟩ := bind_eq_ok.mp hs
  obtain ⟨hfilter, hlookup, -⟩ := bindKeys_eq_ok hbind
  obtain rfl := pure_eq_ok.mp hs
  have hparameters : l'.parameters = l.parameters ++
      (if l'.keyLookup.isEmpty then [] else [⟨some keysName, .array l'.keyLookup⟩]) := by
    rw [hlookup]
    unfold bindKeys at hbind
    split at hbind
    · next hempty =>
      rw [if_pos hempty, ← Except.ok.inj hbind, List.append_nil]
    · next hne =>
      split at hbind
      · cases hbind
      · rw [if_neg hne, ← Except.ok.inj hbind]
  have hfor : Closes quotes ("FOR " ++ loopVariable ++ " IN ")
      [.word "FOR", .word "d", .word "IN"] := rfl
  have hclauses := ((((mentions_source q.entity (!l'.keyLookup.isEmpty)).append
    (adds_filterClause (hfilter ▸ h))).append (adds_sortClause config q.sorts)).append
      (adds_limitClause q.skip q.limit)).append (adds_returnClause config q.projection)
  have hstatement := hfor.mentions_append hclauses
  simp only [List.append_nil, ← String.append_assoc] at hstatement
  exact ⟨hlookup, hparameters, hstatement⟩

/-- **The parameters of a compiled statement are the operands of what is left beside its keys, in
order and named in that order, and then the keys; its placeholders are that of the keys and then the
others in order.** -/
theorem exists_of_compile {q : Query} {s : Statement String Json}
    (h : (dialect (Except QueryError)).compile config q = .ok s) :
    ∃ keys rest us, Divided config q.condition keys rest ∧
      (dialect (Except QueryError)).KeysConverted ⟨q.entity, config.idField⟩ keys s.keyLookup ∧
      List.Forall₂ ((dialect (Except QueryError)).Bound (fun _ v => v) q.entity)
        (operandsOf rest) us ∧
      s.parameters = us.mapIdx (fun i u => ⟨some (parameterName u.name (1 + i)), u.value⟩) ++
        (if s.keyLookup.isEmpty then [] else [⟨some keysName, .array s.keyLookup⟩]) ∧
      placeholders? quotes s.statement =
        some ((if s.keyLookup.isEmpty then [] else ["@" ++ keysName]) ++
          us.mapIdx fun i u => "@" ++ parameterName u.name (1 + i)) := by
  obtain ⟨l, hl, hs⟩ := Dialect.exists_lowering_of_compile h
  obtain ⟨keys, rest, hdivided, hkeys, hrest⟩ := Dialect.exists_divided rfl hl
  obtain ⟨us, hus, hbound, hused⟩ := binding.exists_of_restLowered hrest
  obtain ⟨hlookup, hparameters, hmentions⟩ := mentions_assemble hs hused
  refine ⟨keys, rest, us, hdivided, hlookup ▸ hkeys, ?_, ?_, ?_⟩
  · rwa [← List.filter_true (operandsOf rest)]
  · rw [hparameters, hus]
    exact congrArg (· ++ _) (parametersFrom_eq_mapIdx (.named '@') 1 us)
  · rw [placeholders?_eq_some]
    have hnamed := placeholdersFrom_eq_mapIdx (.named '@') 1 us
    rw [hnamed] at hmentions
    cases hempty : s.keyLookup.isEmpty <;> rw [hempty] at hmentions <;> exact hmentions

end PortableQuery.Aql
