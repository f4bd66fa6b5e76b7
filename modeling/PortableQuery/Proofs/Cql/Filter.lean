import PortableQuery.Proofs.Cql.Conversion
import PortableQuery.Proofs.Cql.Reading

set_option autoImplicit false

/-!
# CQL filters are read back

A lowered condition is its restrictions with `AND` between them, however its conjunctions were
nested, and each question mark in it stands at the place of its parameter.
-/

namespace PortableQuery.Cql

open Lexer Grammar

/-! ## Names -/

theorem exists_spells_identifier (name : String) :
    ∃ t, Spells quotes (identifier name) [t] ∧
      ∀ rest, Sql.name? (t :: rest) = some (name, rest) := by
  unfold identifier
  split
  · next h =>
    obtain ⟨hs, -⟩ := Bool.and_eq_true_iff.mp h
    refine ⟨_, Text.spells_of_isLowerSnake hs, fun rest => ?_⟩
    rw [Sql.name?, Text.map_toLower_of_isLowerSnake hs, String.ofList_toList]
  · exact ⟨_, Sql.spells_doubleQuoted name, fun _ => rfl⟩

theorem unmarked_of_name {t : Token} {name : String}
    (h : ∀ rest, Sql.name? (t :: rest) = some (name, rest)) : Unmarked [t] := by
  rw [Unmarked, List.mem_singleton]
  rintro rfl
  cases h []

/-! ## Restrictions side by side -/

/-- The word between restrictions. -/
def andToken : Token := .word "AND"

/-- The tokens, numbered from `n` on, are read as these restrictions with `AND` between them. -/
def ListsTokens (n : Nat) (ts : List Token) (slots : List (Comparison (Slot Nat))) : Prop :=
  slots ≠ [] ∧ ∃ tss, numbered n ts = [andToken].intercalate tss ∧
    List.Forall₂ (Grammar.Reads anywhere restriction?) tss slots

/-- The text is these restrictions with `AND` between them; its question marks are those at the
places from `n` up to `n'`. -/
def Lists (n : Nat) (text : String) (slots : List (Comparison (Slot Nat))) (n' : Nat) : Prop :=
  ∃ ts, Spells quotes text ts ∧ n' = n + marks ts ∧ ListsTokens n ts slots

theorem intercalate_append {α : Type} (sep : List α) {xs ys : List (List α)} (hx : xs ≠ [])
    (hy : ys ≠ []) :
    sep.intercalate (xs ++ ys) = sep.intercalate xs ++ (sep ++ sep.intercalate ys) := by
  induction xs with
  | nil => exact absurd rfl hx
  | cons x xs ih =>
    cases xs with
    | nil =>
      rw [List.singleton_append, List.intercalate_cons_of_ne_nil hy, List.intercalate_singleton,
        List.append_assoc]
    | cons x' xs =>
      rw [List.cons_append, List.cons_append, List.intercalate_cons_cons, ← List.cons_append,
        ih (by simp), List.intercalate_cons_cons]
      simp only [List.append_assoc]

theorem ListsTokens.and {n : Nat} {ts us : List Token} {slots slots' : List (Comparison (Slot Nat))}
    (h : ListsTokens n ts slots) (h' : ListsTokens (n + marks ts) us slots') :
    ListsTokens n (ts ++ ([andToken] ++ us)) (slots ++ slots') := by
  obtain ⟨hne, tss, hts, hread⟩ := h
  obtain ⟨hne', uss, hus, hread'⟩ := h'
  have hand : Unmarked [andToken] := by decide
  have htss : tss ≠ [] := by
    rintro rfl
    cases hread
    exact hne rfl
  have huss : uss ≠ [] := by
    rintro rfl
    cases hread'
    exact hne' rfl
  refine ⟨by simp [hne], tss ++ uss, ?_, List.rel_append hread hread'⟩
  rw [numbered_append, hand.numbered_append, hts, hus, intercalate_append _ htss huss]

/-- **Restrictions with `AND` between them are the restrictions of both sides.** -/
theorem Lists.and {n n' n'' : Nat} {a b : String} {slots slots' : List (Comparison (Slot Nat))}
    (ha : Lists n a slots n') (hb : Lists n' b slots' n'') :
    Lists n (a ++ " AND " ++ b) (slots ++ slots') n'' := by
  obtain ⟨ts, hts, rfl, hslots⟩ := ha
  obtain ⟨us, hus, rfl, hslots'⟩ := hb
  have hand : Closes quotes " AND " [andToken] := rfl
  refine ⟨ts ++ ([andToken] ++ us), ?_, ?_, hslots.and hslots'⟩
  · rw [String.append_assoc]
    exact hts.append (hand.append hus) (.inr (StartsCutting.append (a := " AND ") rfl _))
  · have hnone : marks [andToken] = 0 := rfl
    simp only [marks_append, hnone]
    omega

theorem lists_restriction {n : Nat} {field text : String} {ts : List Token}
    {slot : Comparison (Slot Nat)} (hs : Spells quotes text ts) (hcut : StartsCutting text)
    (h : ∀ t, (∀ rest, Sql.name? (t :: rest) = some (field, rest)) →
      Grammar.Reads anywhere restriction? (t :: numbered n ts) slot) :
    Lists n (identifier field ++ text) [slot] (n + marks ts) := by
  obtain ⟨t, ht, hname⟩ := exists_spells_identifier field
  have hmark : Unmarked [t] := unmarked_of_name hname
  refine ⟨[t] ++ ts, ht.append hs (.inr hcut), ?_, by simp, [t :: numbered n ts], ?_,
    .cons (h t hname) .nil⟩
  · rw [marks_append, hmark.marks_eq, Nat.zero_add]
  · rw [hmark.numbered_append, List.intercalate_singleton, List.singleton_append]

theorem lists_comparison {o : Operator} (hb : o ≠ .between) (hi : o ≠ .oneOf) (hl : o ≠ .like)
    (n : Nat) (field : String) :
    Lists n (identifier field ++ " " ++ comparison o ++ " " ++ "?") [⟨o, field, .one n⟩]
      (n + 1) := by
  have hop := closes_comparison hb hi hl
  have hmark : Spells quotes "?" [mark] := rfl
  have hcut : StartsCutting (" " ++ comparison o ++ " ") := by cases o <;> rfl
  have htext : identifier field ++ " " ++ comparison o ++ " " ++ "?" =
      identifier field ++ (" " ++ comparison o ++ " " ++ "?") := by
    simp only [String.append_assoc]
  have hmarks : marks ([.sign (comparison o)] ++ [mark]) = 1 := by cases o <;> rfl
  rw [htext, ← hmarks]
  refine lists_restriction (hop.append hmark) (hcut.append _) fun t hname rest _ => ?_
  have hnumbered : numbered n ([.sign (comparison o)] ++ [mark]) =
      [.sign (comparison o), numberedMark n] := by
    cases o <;> first | contradiction | rfl
  have hin : expect? (Token.isWord "IN") (.sign (comparison o) :: numberedMark n :: rest) = none :=
    rfl
  have hsign : comparison? "=" (.sign (comparison o)) = some o := by
    cases o <;> first | contradiction | rfl
  have hplace : mark? (numberedMark n :: rest) = some (n, rest) := (reads_mark n).apply rest
  rw [hnumbered, restriction?, List.cons_append, hname]
  simp only [Option.bind_eq_bind, Option.bind_some, List.cons_append, List.nil_append, hin, hsign,
    hplace]
  rfl

theorem lists_oneOf (n : Nat) {count : Nat} (hcount : count ≠ 0) (field : String) :
    Lists n
      (identifier field ++ " IN (" ++ String.intercalate ", " (List.replicate count "?") ++ ")")
      [⟨.oneOf, field, .many (List.range' n count)⟩] (n + count) := by
  have hin : Closes quotes " IN (" [.word "IN", .sign "("] := rfl
  have hclose : Closes quotes ")" [.sign ")"] := rfl
  have hspells := hin.append ((spells_markList count).append hclose.spells (.inr rfl))
  have htext (x : String) : identifier field ++ " IN (" ++ x ++ ")" =
      identifier field ++ (" IN (" ++ (x ++ ")")) := by
    simp only [String.append_assoc]
  have hopen : Unmarked [.word "IN", .sign "("] := by decide
  have hend : Unmarked [.sign ")"] := by decide
  have hmarks : marks ([.word "IN", .sign "("] ++ (markList count ++ [.sign ")"])) = count := by
    rw [marks_append, marks_append, hopen.marks_eq, marks_markList, hend.marks_eq]
    omega
  rw [htext]
  nth_rewrite 3 [← hmarks]
  refine lists_restriction hspells (StartsCutting.append (a := " IN (") rfl _)
    fun t hname rest _ => ?_
  have hnumbered : numbered n ([.word "IN", .sign "("] ++ (markList count ++ [.sign ")"])) =
      [.word "IN", .sign "("] ++ (numbered n (markList count) ++ [.sign ")"]) := by
    rw [hopen.numbered_append, numbered_append, hend.numbered_eq]
  have hlist : separated? isComma mark? (numbered n (markList count) ++ ([.sign ")"] ++ rest)) =
      some (List.range' n count, [.sign ")"] ++ rest) := reads_marks n hcount _ rfl
  rw [hnumbered, restriction?, List.cons_append, hname]
  simp only [Option.bind_eq_bind, Option.bind_some, List.append_assoc]
  rw [List.cons_append, expect?_cons (by decide)]
  simp only [List.cons_append, List.nil_append] at hlist ⊢
  rw [expect?_cons (by decide)]
  simp only [Option.bind_some, hlist]
  rw [expect?_cons (by decide)]
  rfl

/-! ## Parameters -/

section Parameters

variable {b : Binder Native} {ps : List (Parameter Native)}

theorem length_extend (b : Binder Native) (us : List (Named Native)) :
    (b.extend us).parameters.length = b.parameters.length + us.length := by
  rw [Binder.extend, List.length_append, length_parametersFrom]

theorem extends_extend (b : Binder Native) (us : List (Named Native)) : b.Extends (b.extend us) :=
  ⟨rfl, rfl, List.prefix_append ..⟩

theorem value?_one {u : Named Native} (h : (b.extend [u]).parameters <+: ps) :
    value? ps (.one b.parameters.length) = some u.value := by
  obtain ⟨qs, rfl⟩ := h
  simp [value?, Slot.value?, Binder.extend, parametersFrom]

theorem value?_many {us : List (Named Native)} (h : (b.extend us).parameters <+: ps) :
    value? ps (.many (List.range' b.parameters.length us.length)) =
      some (.list (us.map (·.value))) := by
  suffices hmany : (List.range' b.parameters.length us.length).mapM
      (fun n => (ps[n]?).map (·.value)) = some (us.map (·.value)) by
    rw [value?, Slot.value?, hmany, Option.map_some]
  induction us generalizing b with
  | nil => rfl
  | cons u us ih =>
    have hextend : (b.extend [u]).extend us = b.extend (u :: us) := b.extend_extend [u] us
    have hone : value? ps (.one b.parameters.length) = some u.value :=
      value?_one ((extends_extend _ us).parameters.trans (hextend ▸ h))
    have hlength : b.parameters.length + 1 = (b.extend [u]).parameters.length :=
      (length_extend b [u]).symm
    rw [value?, Slot.value?] at hone
    rw [List.length_cons, List.range'_succ, List.mapM_cons, hone, hlength, ih (hextend ▸ h)]
    rfl

end Parameters

/-! ## Conditions -/

section Walk

variable {k : Keyspace} {schema : Option (SchemaLookup (Except QueryError))}
  {config : CompilerConfig} {entity : String}

@[simp] theorem restrictions_predicate (o : Operator) (e : Element) :
    restrictions (.predicate o e) = restrictionsOf ⟨o, e.name, e.value⟩ := by
  rw [restrictions, Condition.formula_predicate, Formula.atoms_atom, List.flatMap_singleton]

@[simp] theorem restrictions_join (c : Connective) (cs : List Condition) :
    restrictions (.join c cs) = cs.flatMap restrictions := by
  rw [restrictions, Condition.formula_join, Formula.atoms_join, List.flatMap_map,
    List.flatMap_assoc]
  rfl

variable (schema entity) in
/-- A text that was written from the binder `b` on is read back as these comparisons, with their
values converted, in every statement that holds the parameters of `b'`. -/
structure Keeps (as : List (Comparison Value)) (b : Binder Native) (text : String)
    (b' : Binder Native) : Prop where
  toExtends : b.Extends b'
  reads : ∃ slots rs, Lists b.parameters.length text slots b'.parameters.length ∧
    List.Forall₂ (Converted schema entity) as rs ∧
    ∀ ps, b'.parameters <+: ps →
      slots.map (Comparison.map (value? ps)) = rs.map (Comparison.map some)

/-- **Texts with `AND` between them keep what both sides are.** -/
theorem Keeps.and {as as' : List (Comparison Value)} {b b' b'' : Binder Native}
    {text text' : String} (h : Keeps schema entity as b text b')
    (h' : Keeps schema entity as' b' text' b'') :
    Keeps schema entity (as ++ as') b (text ++ " AND " ++ text') b'' := by
  obtain ⟨hext, slots, rs, hlists, hrs, hvalues⟩ := h
  obtain ⟨hext', slots', rs', hlists', hrs', hvalues'⟩ := h'
  refine ⟨hext.trans hext', slots ++ slots', rs ++ rs', hlists.and hlists',
    List.rel_append hrs hrs', fun ps hps => ?_⟩
  rw [List.map_append, List.map_append, hvalues ps (hext'.parameters.trans hps), hvalues' ps hps]

theorem keeps_comparison {o : Operator} (hb : o ≠ .between) (hi : o ≠ .oneOf) (hl : o ≠ .like)
    {field : String} {v : Value} {n : Native} (hn : toNative schema ⟨entity, field⟩ v = .ok n)
    (b : Binder Native) :
    Keeps schema entity [⟨o, field, v⟩] b (identifier field ++ " " ++ comparison o ++ " " ++ "?")
      (b.extend [⟨field, n⟩]) := by
  refine ⟨extends_extend b _, [⟨o, field, .one b.parameters.length⟩], [⟨o, field, n⟩], ?_,
    .cons ⟨rfl, rfl, hn⟩ .nil, fun ps hps => ?_⟩
  · rw [length_extend]
    exact lists_comparison hb hi hl _ field
  · rw [List.map_singleton, List.map_singleton, Comparison.map, value?_one hps, Comparison.map]

theorem toNative_list_eq_ok {scope : Scope} {items : List Value} {n : Native} :
    toNative schema scope (.list items) = .ok n ↔
      ∃ ns, List.Forall₂ (fun v n => toNative schema scope v = .ok n) items ns ∧ n = .list ns := by
  rw [toNative, itemsToNative_eq_mapM, bind_eq_ok]
  simp only [mapM_eq_ok, pure_eq_ok, eq_comm (a := n)]

theorem keeps_oneOf {field : String} {items : List Value} {ns : List Native} (hne : items ≠ [])
    (h : List.Forall₂ (fun v n => toNative schema ⟨entity, field⟩ v = .ok n) items ns)
    (b : Binder Native) :
    Keeps schema entity [⟨.oneOf, field, .list items⟩] b
      (identifier field ++ " IN (" ++ String.intercalate ", " (List.replicate ns.length "?") ++ ")")
      (b.extend (ns.map (⟨field, ·⟩))) := by
  have hlength : (ns.map (Named.mk field)).length = ns.length := List.length_map ..
  have hcount : ns.length ≠ 0 := by
    rw [← h.length_eq]
    simpa using hne
  have hlist : toNative schema ⟨entity, field⟩ (.list items) = .ok (.list ns) :=
    toNative_list_eq_ok.mpr ⟨ns, h, rfl⟩
  refine ⟨extends_extend b _,
    [⟨.oneOf, field, .many (List.range' b.parameters.length ns.length)⟩],
    [⟨.oneOf, field, .list ns⟩], ?_, .cons ⟨rfl, rfl, hlist⟩ .nil, fun ps hps => ?_⟩
  · rw [length_extend, hlength]
    exact lists_oneOf _ hcount field
  · have hvalues : (ns.map (Named.mk field)).map (·.value) = ns := by
      rw [List.map_map]
      exact List.map_id ns
    have hmany := value?_many hps
    rw [hlength, hvalues] at hmany
    rw [List.map_singleton, List.map_singleton, Comparison.map, hmany, Comparison.map]

variable (schema entity) in
/-- A lowered condition is read back as its restrictions, from every binder that hands out question
marks. -/
def Means (c : Condition) (b : Binder Native) (text : String) (b' : Binder Native) : Prop :=
  b.style = .question → Keeps schema entity (restrictions c) b text b'

/-- **A lowered predicate is read back as its restrictions.** -/
theorem means_predicate {o : Operator} {e : Element} {p : Predicate Native} {b b' : Binder Native}
    {text : String}
    (hp : (dialect (m := Except QueryError) k schema).predicate config entity o e = .ok p)
    (hl : lowerPredicate p b = .ok (text, b')) :
    Means schema entity (.predicate o e) b text b' := by
  intro hstyle
  obtain ⟨-, x, hx, rfl⟩ := Dialect.converts_of_predicate_eq_ok hp
  rw [restrictions_predicate]
  generalize e.value = v at hx
  cases hx with
  | @range lower upper l u hlower hupper =>
    obtain ⟨rfl, rfl⟩ := Binder.bindPair_eq_ok
      (fun l u =>
        identifier e.name ++ " >= " ++ l ++ " AND " ++ identifier e.name ++ " <= " ++ u) hl
    have hl := keeps_comparison (o := .greaterOrEqual) nofun nofun nofun hlower b
    have hu :=
      keeps_comparison (o := .lessOrEqual) nofun nofun nofun hupper (b.extend [⟨e.name, l⟩])
    have hboth := hl.and hu
    rw [Binder.extend_extend] at hboth
    rw [hstyle]
    simp only [String.append_assoc] at hboth ⊢
    exact hboth
  | choice hne _ hns =>
    obtain ⟨rfl, rfl⟩ := Binder.bindList_eq_ok
      (fun list => identifier e.name ++ " IN (" ++ list ++ ")") hl
    rw [hstyle, placeholdersFrom_question, List.length_map]
    exact keeps_oneOf hne hns b
  | pattern hn =>
    obtain ⟨hlike, -⟩ := exists_of_single (by decide) (by decide) hl
    contradiction
  | value hbetween honeOf _ hn =>
    obtain ⟨hlike, x, hx, rfl⟩ := exists_of_single hbetween honeOf hl
    obtain ⟨rfl, rfl⟩ := Binder.bind_eq_ok hx
    have hsingle : restrictionsOf ⟨o, e.name, v⟩ = [⟨o, e.name, v⟩] := by
      cases o <;> first | contradiction | rfl
    rw [hstyle, hsingle]
    exact keeps_comparison hbetween honeOf hlike hn b

theorem keeps_chain {cs : List Condition} {b b' : Binder Native} {texts : List String}
    (h : Dialect.Chain (Means schema entity) cs b texts b') (hne : cs ≠ [])
    (hstyle : b.style = .question) :
    Keeps schema entity (cs.flatMap restrictions) b (String.intercalate " AND " texts) b' := by
  induction h with
  | nil => exact absurd rfl hne
  | @cons c cs b b' b'' text texts hc hcs ih =>
    have hfirst := hc hstyle
    rw [List.flatMap_cons]
    cases hcs with
    | nil => simpa using hfirst
    | @cons c' cs _ b₁ _ text' texts hc' hcs =>
      rw [String.intercalate_cons_cons]
      exact hfirst.and (ih (by simp) (hfirst.toExtends.style.trans hstyle))

/-- **A lowered condition is read back as its restrictions.** -/
theorem means_lowerCondition {c : Condition} {b b' : Binder Native} {text : String}
    (h : (dialect (m := Except QueryError) k schema).lowerCondition config entity c b =
      .ok (text, b')) : Means schema entity c b text b' := by
  refine Dialect.lowerCondition_induct (R := Means schema entity) ?_ ?_ ?_ h
  · intro o e b p text b' hp hl
    exact means_predicate hp hl
  · intro c cs b texts b' text hne hcs hf hstyle
    cases c with
    | and =>
      obtain rfl := Except.ok.inj hf
      rw [restrictions_join]
      exact keeps_chain hcs hne hstyle
    | or => cases hf
  · intro c b text b' g _ hg
    cases hg

end Walk

end PortableQuery.Cql
