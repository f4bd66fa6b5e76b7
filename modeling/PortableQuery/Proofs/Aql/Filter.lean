import Mathlib.Tactic.IntervalCases
import PortableQuery.Aql.Loop
import PortableQuery.Proofs.Aql.Reading
import PortableQuery.Proofs.Json.Quoted
import PortableQuery.Proofs.Lowering.Naming
import PortableQuery.Proofs.Text.Name

set_option autoImplicit false

/-!
# AQL filters are read back

A lowered condition, read by the grammar of the language and with every placeholder resolved among
the parameters, is the condition.
-/

namespace PortableQuery.Aql

open Lexer Grammar

/-! ## Names and strings -/

theorem inside_tickedChar (c : Char) : Inside quotes nameQuote (tickedChar c) (tickedChar c) := by
  unfold tickedChar
  split
  · exact inside_escape rfl (by decide) c
  · next h =>
    rw [not_or] at h
    exact inside_of_ne h.2 h.1

theorem unescaped_tickedChar (c : Char) (cs : List Char) :
    unescaped (tickedChar c ++ cs) = c :: unescaped cs := by
  unfold tickedChar
  split
  · rfl
  · next h =>
    rw [not_or] at h
    rw [List.singleton_append, unescaped]
    rintro x xs rfl
    exact absurd rfl h.1

theorem unescaped_ticked (cs : List Char) : unescaped (cs.flatMap tickedChar) = cs := by
  induction cs with
  | nil => rfl
  | cons c cs ih => rw [List.flatMap_cons, unescaped_tickedChar, ih]

theorem spells_ticked (name : String) : Spells quotes (ticked name) [.name name] := by
  have hq : nameQuote ∈ quotes := by simp [quotes]
  have hinside := inside_flatMap inside_tickedChar name.toList
  have htoken : nameQuote.token? (name.toList.flatMap tickedChar) = some (.name name) := by
    simp only [nameQuote, unescaped_ticked, String.ofList_toList]
  exact Lexer.spells_quoted (q := nameQuote) hq rfl hinside htoken

theorem inside_escaped (c : Char) :
    Inside quotes textQuote (JsonText.escaped c) (JsonText.escaped c) := by
  rcases JsonText.escaped_cases c with ⟨hq, hb, _, he⟩ | ⟨x, _, he⟩ | ⟨hc, he⟩
  · rw [he]
    exact inside_of_ne hq hb
  · rw [he]
    exact inside_escape rfl (by decide) x
  · have hplain {d : Nat} (hd : d < 16) : Inside quotes textQuote [d.digitChar] [d.digitChar] := by
      apply inside_of_ne <;> interval_cases d <;> decide
    have hunit : Inside quotes textQuote ['\\', 'u', '0', '0'] ['\\', 'u', '0', '0'] :=
      fun _ _ => by simp [run, step, textQuote]
    rw [he]
    exact (hunit.append (hplain (by omega))).append (hplain (by omega))

theorem spells_quoted (s : String) : Spells quotes (JsonText.quoted s) [.text s] := by
  have hq : textQuote ∈ quotes := by simp [quotes]
  have hinside := inside_flatMap inside_escaped s.toList
  have htoken : textQuote.token? (s.toList.flatMap JsonText.escaped) = some (.text s) := by
    simp only [textQuote, JsonText.string?_quoted]
  exact Lexer.spells_quoted (q := textQuote) hq rfl hinside htoken

/-- The token is read as the name. -/
def Names (t : Token) (name : String) : Prop := ∀ rest, name? (t :: rest) = some (name, rest)

theorem exists_spells_identifier (name : String) :
    ∃ t, Spells quotes (identifier name) [t] ∧ Names t name := by
  unfold identifier
  split
  · next h =>
    obtain ⟨hs, -⟩ := Bool.and_eq_true_iff.mp h
    exact ⟨_, Text.spells_of_isPlainWord hs, fun _ => rfl⟩
  · exact ⟨_, spells_ticked name, fun _ => rfl⟩

theorem attributeName_eq (config : CompilerConfig) (name : String) :
    (if config.isIdField name then keyAttribute else name) = attributeName config name := by
  simp only [CompilerConfig.isIdField_iff]
  rfl

theorem renders_path (config : CompilerConfig) (name : String) :
    ∃ t, Spells quotes (path config name) [.word "d", .sign ".", t] ∧
      ∀ rest, attribute? (.word "d" :: .sign "." :: t :: rest) =
        some (attributeName config name, rest) := by
  have hd : Closes quotes (loopVariable ++ ".") [.word "d", .sign "."] := rfl
  have hread (ts : List Token) : attribute? (.word "d" :: .sign "." :: ts) = name? ts := rfl
  simp only [path, attributeName, CompilerConfig.isIdField_iff]
  split
  · have hkey : Spells quotes keyAttribute [.word "_key"] := rfl
    exact ⟨.word "_key", hd.append hkey, fun _ => rfl⟩
  · obtain ⟨t, ht, hn⟩ := exists_spells_identifier name
    exact ⟨t, hd.append ht, fun rest => by rw [hread, hn]⟩

/-! ## Placeholders -/

/-- A name that a placeholder can have. -/
def IsParameterName (name : String) : Prop := name ≠ "" ∧ ∀ c ∈ name.toList, isWordChar c = true

theorem isParameterName_parameterName (field : String) (n : Nat) :
    IsParameterName (parameterName field n) := by
  have hword {c : Char} (h : Text.isWordChar c = true) : isWordChar c = true := by
    rcases Bool.or_eq_true_iff.mp h with h | h <;> simp_all [isWordChar]
  obtain ⟨c, cs, hc, hcs, hname⟩ := exists_toList_parameterName field
  have hname := hname n
  refine ⟨fun h => by simp [h] at hname, ?_⟩
  rw [hname, List.forall_mem_cons, List.forall_mem_append, List.forall_mem_cons]
  refine ⟨?_, fun d hd => hword (List.all_eq_true.mp hcs d hd), rfl, fun d hd => ?_⟩
  · rcases Bool.or_eq_true_iff.mp hc with h | h <;> simp_all [isWordChar, Char.isAlphanum]
  · exact isWordChar_of_isDigit (Digits.isDigit_of_mem_toString hd)

theorem look_append {ps qs : List (Parameter Json)} {name : String} {v : Json}
    (h : ps.any (·.name == some name) = false) :
    placeholders.look (ps ++ [⟨some name, v⟩] ++ qs) name = some v := by
  have hnone : ps.find? (·.name == some name) = none := by
    rw [List.find?_eq_none]
    exact fun p hp => List.any_eq_false.mp h p hp
  simp [placeholders, List.find?_append, hnone]

theorem faithful_placeholders : placeholders.Faithful IsParameterName := by
  intro b field v p b' hb h
  have hstyle : b.style = .named '@' := hb.1
  simp only [Binder.bind, hstyle, Binder.bindNamed] at h
  split at h
  · cases h
  · next hfree =>
    obtain ⟨rfl, rfl⟩ := Prod.mk.inj (Except.ok.inj h)
    refine ⟨.push .., _, isParameterName_parameterName field b.nextOrdinal, rfl, ?_⟩
    rintro ps ⟨qs, rfl⟩
    exact look_append (Bool.eq_false_iff.mpr hfree)

theorem spells_placeholder {name : String} (h : IsParameterName name) :
    Spells quotes (placeholders.write name) [.parameter '@' name] :=
  spells_parameter (.inr rfl) h.2

theorem placeholder?_cons {name : String} (h : IsParameterName name) (rest : List Token) :
    placeholder? (.parameter '@' name :: rest) = some (name, rest) :=
  if_pos ⟨rfl, h.1⟩

/-! ## Predicates -/

theorem isUnit_predicate (config : CompilerConfig) (field : String) :
    ∃ us, Spells quotes (path config field) us ∧
      ∀ {ts : List Token} {a : Comparison (Slot String)},
        Reads anywhere (restriction? (attributeName config field)) ts a →
        IsUnit predicate? (us ++ ts) (.atom a) := by
  obtain ⟨t, ht, hread⟩ := renders_path config field
  refine ⟨_, ht, fun {ts a} h => ?_⟩
  show IsUnit predicate? (.word "d" :: .sign "." :: t :: ts) (.atom a)
  refine isUnit_atom (fun rest hrest => ?_) rfl (by simp)
  simp only [List.cons_append]
  rw [predicate?, hread]
  exact h rest hrest

theorem writes_predicate (config : CompilerConfig) (field : String) {text : String}
    {ts : List Token} {a : Comparison (Slot String)} (hs : Spells quotes text ts)
    (hc : StartsCutting text)
    (h : Reads anywhere (restriction? (attributeName config field)) ts a) :
    Writes quotes predicate? (path config field ++ text) (.atom a) := by
  obtain ⟨us, hus, hunit⟩ := isUnit_predicate config field
  exact ⟨_, hus.append hs (.inr hc), (hunit h).expresses⟩

/-- The token of a comparison with one value. -/
def comparisonToken : Operator → Token
  | .like => .word "LIKE"
  | o => .sign (comparison o)

theorem closes_comparison {o : Operator} (hb : o ≠ .between) (hi : o ≠ .oneOf) :
    Closes quotes (" " ++ comparison o ++ " ") [comparisonToken o] := by
  cases o <;> first | rfl | contradiction

theorem reads_comparison {o : Operator} (hb : o ≠ .between) (hi : o ≠ .oneOf) (field : String)
    {name : String} (hn : IsParameterName name) :
    Reads anywhere (restriction? field) [comparisonToken o, .parameter '@' name]
      ⟨o, field, .one name⟩ := by
  intro rest _
  have hread (ts : List Token) : restriction? field (comparisonToken o :: ts) =
      (placeholder? ts).bind fun r => some (⟨o, field, .one r.1⟩, r.2) := by
    cases o <;> first | rfl | contradiction
  rw [List.cons_append, List.singleton_append, hread, placeholder?_cons hn]
  rfl

theorem writes_comparison (config : CompilerConfig) {o : Operator} (hb : o ≠ .between)
    (hi : o ≠ .oneOf) (field : String) {name : String} (hn : IsParameterName name) :
    Writes quotes predicate?
      (path config field ++ " " ++ comparison o ++ " " ++ placeholders.write name)
      (.atom ⟨o, attributeName config field, .one name⟩) := by
  have htext : path config field ++ " " ++ comparison o ++ " " ++ placeholders.write name =
      path config field ++ (" " ++ comparison o ++ " " ++ placeholders.write name) := by
    simp only [String.append_assoc]
  have hcut : StartsCutting (" " ++ comparison o ++ " ") := by cases o <;> rfl
  rw [htext]
  exact writes_predicate config field ((closes_comparison hb hi).append (spells_placeholder hn))
    (hcut.append _) (reads_comparison hb hi _ hn)

theorem writes_oneOf (config : CompilerConfig) (field : String) {names : List String}
    (hne : names ≠ []) (hn : ∀ name ∈ names, IsParameterName name) :
    Writes quotes predicate?
      (path config field ++ " IN [" ++ String.intercalate ", " (names.map placeholders.write) ++
        "]")
      (.atom ⟨.oneOf, attributeName config field, .many names⟩) := by
  have hin : Closes quotes " IN [" [.word "IN", .sign "["] := rfl
  have hclose : Closes quotes "]" [.sign "]"] := rfl
  have hitems : List.Forall₂ (Renders quotes anywhere placeholder?)
      (names.map placeholders.write) names := by
    rw [List.forall₂_map_left_iff, List.forall₂_same]
    exact fun name hname => ⟨_, spells_placeholder (hn name hname), fun rest _ =>
      placeholder?_cons (hn name hname) rest⟩
  obtain ⟨ts, hts, hread⟩ := renders_separated hitems hne rfl
  have htext (x : String) : path config field ++ " IN [" ++ x ++ "]" =
      path config field ++ (" IN [" ++ (x ++ "]")) := by
    simp only [String.append_assoc]
  rw [htext]
  refine writes_predicate config field (hin.append (hts.append hclose.spells (.inr rfl)))
    (StartsCutting.append (a := " IN [") rfl _) fun rest _ => ?_
  simp only [List.cons_append, List.nil_append, List.append_assoc]
  rw [restriction?, if_pos (by decide), expect?_cons (by decide)]
  simp only [Option.bind_eq_bind, Option.bind_some]
  rw [hread _ rfl]
  simp only [Option.bind_some]
  rw [expect?_cons (by decide)]
  rfl

theorem writes_between (config : CompilerConfig) (field : String) {l u : String}
    (hl : IsParameterName l) (hu : IsParameterName u) :
    Writes quotes predicate?
      ("(" ++ path config field ++ " >= " ++ placeholders.write l ++ " AND " ++
        path config field ++ " <= " ++ placeholders.write u ++ ")")
      (.join .and [.atom ⟨.greaterOrEqual, attributeName config field, .one l⟩,
        .atom ⟨.lessOrEqual, attributeName config field, .one u⟩]) := by
  obtain ⟨us, hus, hunit⟩ := isUnit_predicate config field
  have hgte : Closes quotes " >= " [.sign ">="] := rfl
  have hlte : Closes quotes " <= " [.sign "<="] := rfl
  have hlower : Spells quotes (path config field ++ (" >= " ++ placeholders.write l))
      (us ++ [.sign ">=", .parameter '@' l]) :=
    hus.append (hgte.append (spells_placeholder hl))
      (.inr (StartsCutting.append (a := " >= ") rfl _))
  have hupper : Spells quotes (path config field ++ (" <= " ++ placeholders.write u))
      (us ++ [.sign "<=", .parameter '@' u]) :=
    hus.append (hlte.append (spells_placeholder hu))
      (.inr (StartsCutting.append (a := " <= ") rfl _))
  have hunits : List.Forall₂ (IsUnit predicate?)
      [us ++ [.sign ">=", .parameter '@' l], us ++ [.sign "<=", .parameter '@' u]]
      [.atom ⟨.greaterOrEqual, attributeName config field, .one l⟩,
        .atom ⟨.lessOrEqual, attributeName config field, .one u⟩] :=
    .cons (hunit (reads_comparison (o := .greaterOrEqual) nofun nofun _ hl))
      (.cons (hunit (reads_comparison (o := .lessOrEqual) nofun nofun _ hu)) .nil)
  have hand : Closes quotes " AND " [.word "AND"] := rfl
  have htext : "(" ++ path config field ++ " >= " ++ placeholders.write l ++ " AND " ++
      path config field ++ " <= " ++ placeholders.write u ++ ")" =
      "(" ++ (path config field ++ (" >= " ++ placeholders.write l) ++ (" AND " ++
        (path config field ++ (" <= " ++ placeholders.write u)))) ++ ")" := by
    simp only [String.append_assoc]
  have hspells := hlower.append (hand.append hupper)
    (.inr (StartsCutting.append (a := " AND ") rfl _))
  have hexpresses := expresses_join .and hunits (by simp)
  rw [List.intercalate_cons_cons, List.intercalate_singleton, List.append_assoc] at hexpresses
  rw [htext]
  exact ⟨_, (closes_parenthesized hspells).spells, hexpresses.isUnit.expresses⟩

/-! ## Conditions -/

variable {config : CompilerConfig} {entity : String}

/-- A condition as it is read back: without joins of a single part, ranges as conjunctions, every
value in its plain form. -/
def expected (config : CompilerConfig) (c : Condition) : Formula (Comparison (Option Json)) :=
  (c.formula.collapse.flatMap (expand config)).map (Comparison.map Value.plain?)

@[simp] theorem expected_join (c : Connective) (cs : List Condition) :
    expected config (.join c cs) = .joined c (cs.map (expected config)) := by
  rw [expected, Condition.formula_join, Formula.collapse_join, Formula.flatMap_joined,
    Formula.map_joined, List.map_map, List.map_map, List.map_map]
  rfl

@[simp] theorem expected_not (c : Condition) :
    expected config (.not c) = .not (expected config c) := rfl

theorem expected_range {e : Element} {lower upper : Value} (hv : e.value = .list [lower, upper]) :
    expected config (.predicate .between e) =
      .join .and [.atom ⟨.greaterOrEqual, attributeName config e.name, lower.plain?⟩,
        .atom ⟨.lessOrEqual, attributeName config e.name, upper.plain?⟩] := by
  simp [expected, expand, hv, Comparison.map]

theorem expected_predicate {o : Operator} (ho : o ≠ .between) (e : Element) :
    expected config (.predicate o e) =
      .atom ⟨o, attributeName config e.name, e.value.plain?⟩ := by
  cases o <;> first | rfl | contradiction

theorem toPlain_of_toNative {scope : Scope} {v : Value} {j : Json}
    (h : (dialect (Except QueryError)).toNative scope v = .ok j) : v.toPlain scope = .ok j := by
  simpa only [dialect, ofExcept_eq] using h

theorem lowerPredicate_single {o : Operator} (hb : o ≠ .between) (hi : o ≠ .oneOf)
    {name path text : String} {j : Json} {b b' : Binder Json}
    (h : lowerPredicate ⟨o, name, path, .single j⟩ b = .ok (text, b')) :
    ∃ x, b.bind name j = .ok (x, b') ∧ text = path ++ " " ++ comparison o ++ " " ++ x := by
  have hbind : lowerPredicate ⟨o, name, path, .single j⟩ b =
      (b.bind name j >>= fun r => pure (path ++ " " ++ comparison o ++ " " ++ r.1, r.2)) := by
    cases o <;> first | contradiction | rfl
  obtain ⟨⟨x, b₁⟩, hx, h⟩ := bind_eq_ok.mp (hbind ▸ h)
  obtain ⟨rfl, rfl⟩ := Prod.mk.inj (pure_eq_ok.mp h)
  exact ⟨x, hx, rfl⟩

theorem means_single {o : Operator} (hb : o ≠ .between) (hi : o ≠ .oneOf) {e : Element}
    {b b' : Binder Json} {text : String} {j : Json} (hj : e.value.plain? = some j)
    (h : lowerPredicate ⟨o, e.name, path config e.name, .single j⟩ b = .ok (text, b')) :
    language.Means (expected config) (.predicate o e) b text b' := by
  intro hready
  obtain ⟨x, hx, rfl⟩ := lowerPredicate_single hb hi h
  obtain ⟨hext, name, hname, rfl, hlook⟩ := faithful_placeholders hready hx
  refine Language.keeps_atom ?_ hext (writes_comparison config hb hi e.name hname) hlook
  rw [expected_predicate hb, hj]

/-- **A lowered predicate is read back as the comparison.** -/
theorem means_predicate {o : Operator} {e : Element} {b b' : Binder Json} {p : Predicate Json}
    {text : String} (hp : (dialect (Except QueryError)).predicate config entity o e = .ok p)
    (hl : lowerPredicate p b = .ok (text, b')) :
    language.Means (expected config) (.predicate o e) b text b' := by
  intro hb
  obtain ⟨-, x, hx, rfl⟩ := Dialect.converts_of_predicate_eq_ok hp
  generalize hv : e.value = v at hx
  cases hx with
  | @range lower upper l u hlower hupper =>
    obtain ⟨⟨_, b₁⟩, h₁, hl⟩ := bind_eq_ok.mp hl
    obtain ⟨⟨_, b₂⟩, h₂, hl⟩ := bind_eq_ok.mp hl
    obtain ⟨rfl, rfl⟩ := Prod.mk.inj (pure_eq_ok.mp hl)
    obtain ⟨hext, i, hi, rfl, hlooki⟩ := faithful_placeholders hb h₁
    obtain ⟨hext', j, hj, rfl, hlookj⟩ := faithful_placeholders (hb.extends hext) h₂
    have hexp : expected config (.predicate .between e) =
        .join .and [.atom ⟨.greaterOrEqual, attributeName config e.name, some l⟩,
          .atom ⟨.lessOrEqual, attributeName config e.name, some u⟩] := by
      rw [expected_range hv, Value.plain?_eq_some (toPlain_of_toNative hlower),
        Value.plain?_eq_some (toPlain_of_toNative hupper)]
    refine ⟨hext.trans hext', ⟨.join .and
      [.atom ⟨.greaterOrEqual, attributeName config e.name, l⟩,
        .atom ⟨.lessOrEqual, attributeName config e.name, u⟩], by simp [hexp, Comparison.map]⟩, _,
      writes_between config e.name hi hj, fun ps hps => ?_⟩
    have hi := hlooki ps (hext'.parameters.trans hps)
    have hj := hlookj ps hps
    simp [Language.fill, Comparison.map, Language.value?, Slot.value?, language, hi, hj, hexp]
  | @choice items ns hne _ hns =>
    obtain ⟨⟨texts, b₁⟩, h, hl⟩ := bind_eq_ok.mp hl
    obtain ⟨rfl, rfl⟩ := Prod.mk.inj (pure_eq_ok.mp hl)
    obtain ⟨hext, names, hnames, rfl, hlook⟩ := faithful_placeholders.bindAll hb h
    have hne' : names ≠ [] := by
      rintro rfl
      obtain rfl : [] = ns := by simpa using hlook _ List.prefix_rfl
      exact hne (List.forall₂_nil_right_iff.mp hns)
    have hplain := Value.plain?_list (hns.imp fun _ _ => toPlain_of_toNative)
    refine Language.keeps_atom (v := .array ns) ?_ hext
      (writes_oneOf config e.name hne' hnames) fun ps hps => ?_
    · rw [expected_predicate (by decide), hv, hplain]
    · simp [Language.value?, Slot.value?, language, hlook ps hps]
  | pattern hn =>
    have hplain := Value.plain?_eq_some (toPlain_of_toNative hn)
    exact means_single (by decide) (by decide) (hv ▸ hplain) hl hb
  | value hbetween honeOf _ hn =>
    have hplain := Value.plain?_eq_some (toPlain_of_toNative hn)
    exact means_single hbetween honeOf (hv ▸ hplain) hl hb

/-- **A lowered condition is read back as the condition.** -/
theorem means_lowerCondition {c : Condition} {b b' : Binder Json} {text : String}
    (h : (dialect (Except QueryError)).lowerCondition config entity c b = .ok (text, b')) :
    language.Means (expected config) c b text b' := by
  refine Dialect.lowerCondition_induct (R := language.Means (expected config)) ?_ ?_ ?_ h
  · intro o e b p f b' hp hl
    exact means_predicate hp hl
  · intro c cs b fs b' f hne hcs hf
    obtain rfl := Except.ok.inj hf
    exact Language.means_join (expected_join c cs) hne hcs
  · intro c b f b' g hc hg
    obtain rfl := Except.ok.inj hg
    exact Language.means_not (expected_not c) hc

end PortableQuery.Aql
