import PortableQuery.Proofs.Lowering.Walk
import PortableQuery.Proofs.Sql.Reading
import PortableQuery.Proofs.Text.Name
import PortableQuery.Sql.Select

set_option autoImplicit false

/-!
# SQL filters are read back

A lowered condition, read by the grammar of the language and with every placeholder replaced by its
parameter, is the condition.
-/

namespace PortableQuery.Sql

open Lexer Grammar

/-! ## Names -/

theorem inside_quotedChar (c : Char) : Inside quotes nameQuote (Text.quotedChar c) [c] := by
  unfold Text.quotedChar
  split
  · next h =>
    subst h
    exact fun _ _ => rfl
  · next h => exact inside_of_ne_mark rfl h

theorem spells_doubleQuoted (name : String) :
    Spells quotes (Text.doubleQuoted name) [.name name] := by
  have hq : nameQuote ∈ quotes := by simp [quotes]
  have hinside := inside_flatMap inside_quotedChar name.toList
  have htoken : nameQuote.token? (name.toList.flatMap fun c => [c]) = some (.name name) := by
    rw [List.flatMap_singleton']
    simp [nameQuote]
  exact spells_quoted (q := nameQuote) hq rfl hinside htoken

/-- The token is read as the name, and as nothing else. -/
structure Names (t : Token) (name : String) : Prop where
  read : ∀ rest, name? (t :: rest) = some (name, rest)
  not_word : t.isWord "NOT" = false
  not_sign : ∀ s, t ≠ .sign s

theorem exists_spells_identifier (name : String) :
    ∃ t, Spells quotes (identifier name) [t] ∧ Names t name := by
  unfold identifier
  split
  · next h =>
    obtain ⟨hs, hr⟩ := Bool.and_eq_true_iff.mp h
    refine ⟨_, Text.spells_of_isLowerSnake hs, ⟨fun rest => ?_, ?_, fun s => by simp⟩⟩
    · rw [name?, Text.map_toLower_of_isLowerSnake hs, String.ofList_toList]
    · -- in capitals the name would be the reserved word
      rw [Token.isWord, ← Text.toList_upper_of_isLowerSnake hs, beq_eq_false_iff_ne]
      intro hnot
      rw [isReserved, Text.isReserved, String.toList_injective hnot] at hr
      exact absurd hr (by decide)
  · exact ⟨_, spells_doubleQuoted name, fun rest => rfl, rfl, fun s => by simp⟩

/-! ## Placeholders -/

theorem faithful_placeholders : placeholders.Faithful fun _ => True := by
  intro b field v p b' hb h
  simp only [Binder.bind, hb.1, placeholders] at h
  obtain ⟨rfl, rfl⟩ := Prod.mk.inj (Except.ok.inj h)
  refine ⟨.push .., b.nextOrdinal, trivial, rfl, fun ps hps => ?_⟩
  obtain ⟨qs, rfl⟩ := hps
  have hn : b.nextOrdinal = b.parameters.length + 1 := by
    rw [Binder.nextOrdinal, hb.2, Nat.add_comm]
  simp [placeholders, hn, Binder.push]

/-- The token of a placeholder. -/
def placeholderToken (n : Nat) : Token := .parameter '$' (toString n)

theorem spells_placeholder (n : Nat) :
    Spells quotes (placeholders.write n) [placeholderToken n] :=
  spells_parameter (.inl rfl) fun _ hc => isWordChar_of_isDigit (Digits.isDigit_of_mem_toString hc)

theorem reads_placeholder (n : Nat) : Reads anywhere placeholder? [placeholderToken n] n := by
  intro rest _
  have hdigits : (toString n).toList.all Char.isDigit = true :=
    List.all_eq_true.mpr fun _ hc => Digits.isDigit_of_mem_toString hc
  rw [List.singleton_append, placeholderToken, placeholder?,
    if_pos ⟨rfl, Digits.toString_ne_empty n, hdigits⟩, Digits.value_toString]

theorem placeholder?_cons (n : Nat) (rest : List Token) :
    placeholder? (placeholderToken n :: rest) = some (n, rest) :=
  (reads_placeholder n).apply rest

/-! ## Predicates -/

theorem writes_predicate (field : String) {text : String} {ts : List Token}
    {a : Comparison (Slot Nat)} (hs : Spells quotes text ts) (hc : StartsCutting text)
    (h : Reads anywhere (restriction? field) ts a) :
    Writes quotes predicate? (identifier field ++ text) (.atom a) := by
  obtain ⟨t, ht, hn⟩ := exists_spells_identifier field
  have hspells : Spells quotes (identifier field ++ text) (t :: ts) := ht.append hs (.inr hc)
  refine writes_atom hspells (fun rest hrest => ?_) hn.not_word (hn.not_sign _)
  rw [List.cons_append, predicate?, hn.read]
  exact h rest hrest

theorem writes_null (field : String) :
    Writes quotes predicate? (identifier field ++ " IS NULL") (.atom ⟨.equals, field, .null⟩) := by
  have hnull : Spells quotes " IS NULL" [.word "IS", .word "NULL"] := rfl
  exact writes_predicate field hnull rfl fun _ _ => rfl

/-- The token of a comparison with one value. -/
def comparisonToken : Operator → Token
  | .like => .word "LIKE"
  | o => .sign (comparison o)

theorem writes_comparison {o : Operator} (hb : o ≠ .between) (hi : o ≠ .oneOf) (field : String)
    (n : Nat) :
    Writes quotes predicate?
      (identifier field ++ " " ++ comparison o ++ " " ++ placeholders.write n)
      (.atom ⟨o, field, .one n⟩) := by
  have hop : Closes quotes (" " ++ comparison o ++ " ") [comparisonToken o] := by
    cases o <;> first | rfl | contradiction
  have hcut : StartsCutting (" " ++ comparison o ++ " ") := by cases o <;> rfl
  have hread (ts : List Token) : restriction? field (comparisonToken o :: ts) =
      (placeholder? ts).bind fun r => some (⟨o, field, .one r.1⟩, r.2) := by
    cases o <;> first | rfl | contradiction
  have htext : identifier field ++ " " ++ comparison o ++ " " ++ placeholders.write n =
      identifier field ++ (" " ++ comparison o ++ " " ++ placeholders.write n) := by
    simp only [String.append_assoc]
  rw [htext]
  refine writes_predicate field (hop.append (spells_placeholder n)) (hcut.append _)
    fun rest _ => ?_
  rw [List.singleton_append, List.cons_append, List.singleton_append, hread, placeholder?_cons]
  rfl

theorem writes_between (field : String) (l u : Nat) :
    Writes quotes predicate?
      (identifier field ++ " BETWEEN " ++ placeholders.write l ++ " AND " ++ placeholders.write u)
      (.atom ⟨.between, field, .many [l, u]⟩) := by
  have hbetween : Closes quotes " BETWEEN " [.word "BETWEEN"] := rfl
  have hand : Closes quotes " AND " [.word "AND"] := rfl
  have htext : identifier field ++ " BETWEEN " ++ placeholders.write l ++ " AND " ++
      placeholders.write u = identifier field ++ (" BETWEEN " ++ (placeholders.write l ++
        (" AND " ++ placeholders.write u))) := by
    simp only [String.append_assoc]
  have hspells := hbetween.append ((spells_placeholder l).append
    (hand.append (spells_placeholder u)) (.inr (StartsCutting.append (a := " AND ") rfl _)))
  rw [htext]
  refine writes_predicate field hspells (StartsCutting.append (a := " BETWEEN ") rfl _)
    fun rest _ => ?_
  simp only [List.cons_append, List.nil_append]
  rw [restriction?, if_neg (by decide), if_neg (by decide), if_pos (by decide), placeholder?_cons]
  simp only [Option.bind_eq_bind, Option.bind_some]
  rw [expect?_cons (by decide)]
  simp only [Option.bind_some, placeholder?_cons, Option.pure_def]

theorem writes_oneOf (field : String) {ns : List Nat} (hne : ns ≠ []) :
    Writes quotes predicate?
      (identifier field ++ " IN (" ++ String.intercalate ", " (ns.map placeholders.write) ++ ")")
      (.atom ⟨.oneOf, field, .many ns⟩) := by
  have hin : Closes quotes " IN (" [.word "IN", .sign "("] := rfl
  have hclose : Closes quotes ")" [.sign ")"] := rfl
  have hitems : List.Forall₂ (Renders quotes anywhere placeholder?)
      (ns.map placeholders.write) ns := by
    rw [List.forall₂_map_left_iff, List.forall₂_same]
    exact fun n _ => ⟨_, spells_placeholder n, reads_placeholder n⟩
  obtain ⟨ts, hts, hread⟩ := renders_separated hitems hne rfl
  have htext (x : String) : identifier field ++ " IN (" ++ x ++ ")" =
      identifier field ++ (" IN (" ++ (x ++ ")")) := by
    simp only [String.append_assoc]
  rw [htext]
  refine writes_predicate field (hin.append (hts.append hclose.spells (.inr rfl)))
    (StartsCutting.append (a := " IN (") rfl _) fun rest _ => ?_
  simp only [List.cons_append, List.nil_append, List.append_assoc]
  rw [restriction?, if_neg (by decide), if_pos (by decide), expect?_cons (by decide)]
  simp only [Option.bind_eq_bind, Option.bind_some]
  rw [hread _ rfl]
  simp only [Option.bind_some]
  rw [expect?_cons (by decide)]
  rfl

/-! ## Conditions -/

variable {schema : Option String} {config : CompilerConfig} {entity : String}

/-- A condition as it is read back: without joins of a single part, every value being found. -/
def expected (c : Condition) : Formula (Comparison (Option Value)) :=
  c.formula.collapse.map (Comparison.map some)

@[simp] theorem expected_predicate (o : Operator) (e : Element) :
    expected (.predicate o e) = .atom ⟨o, e.name, some e.value⟩ := rfl

@[simp] theorem expected_join (c : Connective) (cs : List Condition) :
    expected (.join c cs) = .joined c (cs.map expected) := by
  rw [expected, Condition.formula_join, Formula.collapse_join, Formula.map_joined, List.map_map,
    List.map_map]
  rfl

@[simp] theorem expected_not (c : Condition) : expected (.not c) = .not (expected c) := rfl

theorem eq_of_toNative_eq_ok {scope : Scope} {v n : Value}
    (h : (dialect (Except QueryError) schema).toNative scope v = .ok n) : v = n := by
  simp only [dialect, ofExcept_eq] at h
  cases v <;> first | exact Except.ok.inj h | cases h

theorem lowerPredicate_single {o : Operator} (hb : o ≠ .between) (hi : o ≠ .oneOf)
    {name path text : String} {v : Value} {b b' : Binder Value}
    (h : lowerPredicate ⟨o, name, path, .single v⟩ b = .ok (text, b')) :
    o = .equals ∧ v = .null ∧ text = path ++ " IS NULL" ∧ b' = b ∨
      ∃ x, b.bind name v = .ok (x, b') ∧ text = path ++ " " ++ comparison o ++ " " ++ x := by
  by_cases hv : v = .null
  · subst hv
    cases o with
    | equals =>
      obtain ⟨rfl, rfl⟩ := Prod.mk.inj (Except.ok.inj h)
      exact .inl ⟨rfl, rfl, rfl, rfl⟩
    | between | oneOf => contradiction
    | greater | greaterOrEqual | less | lessOrEqual | like => cases h
  · have hbind : lowerPredicate ⟨o, name, path, .single v⟩ b =
        (b.bind name v >>= fun r => pure (path ++ " " ++ comparison o ++ " " ++ r.1, r.2)) := by
      cases v <;> first | contradiction | (cases o <;> first | contradiction | rfl)
    obtain ⟨⟨x, b₁⟩, hx, h⟩ := bind_eq_ok.mp (hbind ▸ h)
    obtain ⟨rfl, rfl⟩ := Prod.mk.inj (pure_eq_ok.mp h)
    exact .inr ⟨x, hx, rfl⟩

theorem means_single {o : Operator} (hb : o ≠ .between) (hi : o ≠ .oneOf) {e : Element}
    {b b' : Binder Value} {text : String}
    (h : lowerPredicate ⟨o, e.name, identifier e.name, .single e.value⟩ b = .ok (text, b')) :
    language.Means expected (.predicate o e) b text b' := by
  intro hready
  obtain ⟨rfl, hv, rfl, rfl⟩ | ⟨x, hx, rfl⟩ := lowerPredicate_single hb hi h
  · have hexp : expected (.predicate .equals e) = .atom ⟨.equals, e.name, some .null⟩ := by
      rw [expected_predicate, hv]
    exact Language.keeps_atom hexp (.refl _) (writes_null e.name) fun _ _ => rfl
  · obtain ⟨hext, k, -, rfl, hk⟩ := faithful_placeholders hready hx
    exact Language.keeps_atom (expected_predicate o e) hext (writes_comparison hb hi e.name k) hk

/-- **A lowered predicate is read back as the comparison.** -/
theorem means_predicate {o : Operator} {e : Element} {b b' : Binder Value} {p : Predicate Value}
    {text : String}
    (hp : (dialect (Except QueryError) schema).predicate config entity o e = .ok p)
    (hl : lowerPredicate p b = .ok (text, b')) :
    language.Means expected (.predicate o e) b text b' := by
  intro hb
  obtain ⟨-, x, hx, rfl⟩ := Dialect.converts_of_predicate_eq_ok hp
  generalize hv : e.value = v at hx
  cases hx with
  | @range lower upper l u hlower hupper =>
    obtain rfl := eq_of_toNative_eq_ok hlower
    obtain rfl := eq_of_toNative_eq_ok hupper
    obtain ⟨⟨_, b₁⟩, h₁, hl⟩ := bind_eq_ok.mp hl
    obtain ⟨⟨_, b₂⟩, h₂, hl⟩ := bind_eq_ok.mp hl
    obtain ⟨rfl, rfl⟩ := Prod.mk.inj (pure_eq_ok.mp hl)
    obtain ⟨hext, i, -, rfl, hi⟩ := faithful_placeholders hb h₁
    obtain ⟨hext', j, -, rfl, hj⟩ := faithful_placeholders (hb.extends hext) h₂
    have hexp : expected (.predicate .between e) =
        .atom ⟨.between, e.name, some (.list [lower, upper])⟩ := by
      rw [expected_predicate, hv]
    refine Language.keeps_atom hexp (hext.trans hext') (writes_between e.name i j) fun ps hps => ?_
    have hi := hi ps (hext'.parameters.trans hps)
    have hj := hj ps hps
    simp [Language.value?, Slot.value?, language, hi, hj]
  | @choice items ns hne _ hns =>
    obtain rfl : items = ns := List.forall₂_eq_eq_eq ▸ hns.imp fun _ _ => eq_of_toNative_eq_ok
    obtain ⟨⟨texts, b₁⟩, h, hl⟩ := bind_eq_ok.mp hl
    obtain ⟨rfl, rfl⟩ := Prod.mk.inj (pure_eq_ok.mp hl)
    obtain ⟨hext, ks, -, rfl, hks⟩ := faithful_placeholders.bindAll hb h
    have hne' : ks ≠ [] := by
      rintro rfl
      simpa [hne] using hks _ List.prefix_rfl
    have hexp : expected (.predicate .oneOf e) = .atom ⟨.oneOf, e.name, some (.list items)⟩ := by
      rw [expected_predicate, hv]
    refine Language.keeps_atom hexp hext (writes_oneOf e.name hne') fun ps hps => ?_
    simp [Language.value?, Slot.value?, language, hks ps hps]
  | pattern hn =>
    obtain rfl := eq_of_toNative_eq_ok hn
    exact means_single (by decide) (by decide) (hv ▸ hl) hb
  | value hbetween honeOf _ hn =>
    obtain rfl := eq_of_toNative_eq_ok hn
    exact means_single hbetween honeOf (hv ▸ hl) hb

/-- **A lowered condition is read back as the condition.** -/
theorem means_lowerCondition {c : Condition} {b b' : Binder Value} {text : String}
    (h : (dialect (Except QueryError) schema).lowerCondition config entity c b = .ok (text, b')) :
    language.Means expected c b text b' := by
  refine Dialect.lowerCondition_induct (R := language.Means expected) ?_ ?_ ?_ h
  · intro o e b p f b' hp hl
    exact means_predicate hp hl
  · intro c cs b fs b' f hne hcs hf
    obtain rfl := Except.ok.inj hf
    exact Language.means_join (expected_join c cs) hne hcs
  · intro c b f b' g hc hg
    obtain rfl := Except.ok.inj hg
    exact Language.means_not (expected_not c) hc

end PortableQuery.Sql
