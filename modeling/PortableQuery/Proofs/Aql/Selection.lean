import PortableQuery.Proofs.Aql.RoundTrip
import PortableQuery.Proofs.Lowering.Diversion

set_option autoImplicit false

/-!
# What AQL statements select

A loop is over the documents of a collection, or over those of its keys, and passes those that its
filter holds of. How the store compares the value of an attribute with another is its own affair:
everything here holds for any relation between the two.
-/

namespace PortableQuery.Aql

open Lexer Grammar

/-! ## Documents -/

/-- A document of a collection. An attribute that it does not have is null. -/
structure Doc where
  collection : String
  attributes : String → Json

section Relation

variable (R : Operator → Json → Json → Prop)

/-- The value of an attribute compares with another, with one of several, or with two bounds. -/
def Compares (x : Json) : Operator → Json → Prop
  | .oneOf, .array items => ∃ j ∈ items, R .equals x j
  | .between, .array [lower, upper] => R .greaterOrEqual x lower ∧ R .lessOrEqual x upper
  | o, j => R o x j

/-- A comparison holds of the document; one without a value holds of none. -/
def Doc.Satisfies (d : Doc) (a : Comparison (Option Json)) : Prop :=
  ∃ j, a.value = some j ∧ Compares R (d.attributes a.field) a.operator j

/-- The comparison of a condition, as one of an attribute with a plain form. -/
def plainComparison (config : CompilerConfig) (a : Comparison Value) : Comparison (Option Json) :=
  ⟨a.operator, attributeName config a.field, a.value.plain?⟩

/-- The loop is over the document, and its filter holds of it. -/
def Loop.Selects (d : Doc) (l : Loop (Option Json)) : Prop :=
  d.collection = l.collection ∧ (∀ keys ∈ l.keys, d.Satisfies R ⟨.oneOf, keyAttribute, keys⟩) ∧
    ∀ g ∈ l.condition, g.Holds (d.Satisfies R)

end Relation

/-- The formula of a filter, which must be all of the text. -/
def filter? (text : String) : Option (Formula (Comparison (Slot String))) := do
  let ts ← Lexer.tokens? quotes text
  let (g, ts) ← formula? predicate? ts
  if ts.isEmpty then some g else none

/-! ## Conditions -/

variable {R : Operator → Json → Json → Prop} {config : CompilerConfig} {d : Doc}

theorem satisfies_range {field : String} {lower upper : Value} :
    d.Satisfies R ⟨.between, field, (Value.list [lower, upper]).plain?⟩ ↔
      d.Satisfies R ⟨.greaterOrEqual, field, lower.plain?⟩ ∧
        d.Satisfies R ⟨.lessOrEqual, field, upper.plain?⟩ := by
  simp only [Doc.Satisfies, Value.plain?_list_eq_some, List.forall₂_cons_left_iff,
    List.forall₂_nil_left_iff]
  constructor
  · rintro ⟨_, ⟨_, ⟨l, _, hl, ⟨u, _, hu, rfl, rfl⟩, rfl⟩, rfl⟩, hlower, hupper⟩
    exact ⟨⟨l, hl, hlower⟩, u, hu, hupper⟩
  · rintro ⟨⟨l, hl, hlower⟩, u, hu, hupper⟩
    exact ⟨_, ⟨_, ⟨l, _, hl, ⟨u, _, hu, rfl, rfl⟩, rfl⟩, rfl⟩, hlower, hupper⟩

theorem holds_expand (a : Comparison Value) :
    (expand config a).Holds (fun x => d.Satisfies R (x.map Value.plain?)) ↔
      d.Satisfies R (plainComparison config a) := by
  unfold expand
  split
  · rw [Formula.holds_and, List.forall_mem_cons, List.forall_mem_singleton, Formula.holds_atom,
      Formula.holds_atom]
    exact satisfies_range.symm
  · exact Iff.rfl

/-- **What is read back holds where the condition does.** -/
theorem holds_expected (c : Condition) : (expected config c).Holds (d.Satisfies R) ↔
    c.formula.Holds fun a => d.Satisfies R (plainComparison config a) := by
  rw [expected, Formula.holds_map, Formula.holds_flatMap, Formula.holds_collapse]
  exact Formula.holds_congr holds_expand _

theorem satisfies_keyAttribute_iff {scope : Scope} {items : List Value} {js : List Json}
    (h : List.Forall₂ (fun v j => (dialect (Except QueryError)).toNative scope v = .ok j)
      items js) :
    d.Satisfies R (plainComparison config ⟨.oneOf, config.idField, .list items⟩) ↔
      ∃ j ∈ js, R .equals (d.attributes keyAttribute) j := by
  have hplain : (Value.list items).plain? = some (.array js) :=
    Value.plain?_list (h.imp fun _ _ => toPlain_of_toNative)
  have hkey : attributeName config config.idField = keyAttribute := if_pos rfl
  simp [Doc.Satisfies, plainComparison, hplain, hkey, Compares]

theorem satisfies_equals_singleton {field : String} {v : Value} :
    d.Satisfies R ⟨.equals, field, v.plain?⟩ ↔
      d.Satisfies R ⟨.oneOf, field, (Value.list [v]).plain?⟩ := by
  simp only [Doc.Satisfies, Value.plain?_list_eq_some, List.forall₂_cons_left_iff,
    List.forall₂_nil_left_iff]
  constructor
  · rintro ⟨j, hj, h⟩
    exact ⟨_, ⟨_, ⟨j, _, hj, rfl, rfl⟩, rfl⟩, j, List.mem_singleton_self j, h⟩
  · rintro ⟨_, ⟨_, ⟨j, _, hj, rfl, rfl⟩, rfl⟩, x, hx, h⟩
    obtain rfl := List.mem_singleton.mp hx
    exact ⟨x, hj, h⟩

/-! ## Filters and statements -/

theorem filter?_of_writes {text : String} {g : Formula (Comparison (Slot String))}
    (h : Writes quotes predicate? text g) : filter? text = some g := by
  obtain ⟨ts, hs, he⟩ := h
  have hread := he.reads_formula [] rfl
  rw [List.append_nil] at hread
  have htokens : tokens? quotes text = some ts := hs
  rw [filter?, htokens]
  simp [hread]

/-- The filter holds of the document, its placeholders being resolved among the parameters. -/
def Passes (R : Operator → Json → Json → Prop) (ps : List (Parameter Json)) (filter : String)
    (d : Doc) : Prop :=
  ∃ g, filter? filter = some g ∧ (language.fill ps g).Holds (d.Satisfies R)

/-- The statement is a loop over the document, its placeholders being resolved among its
parameters. -/
def Selects (R : Operator → Json → Json → Prop) (s : Statement String Json) (d : Doc) : Prop :=
  ∃ l, parse? s.statement = some l ∧ (l.map (language.value? s.parameters)).Selects R d

theorem passes_lowerCondition {entity : String} {c : Condition} {filter : String}
    {b b' : Binder Json} (hb : placeholders.Ready b)
    (h : (dialect (Except QueryError)).lowerCondition config entity c b = .ok (filter, b'))
    {ps : List (Parameter Json)} (hps : b'.parameters <+: ps) :
    Passes R ps filter d ↔ c.formula.Holds fun a => d.Satisfies R (plainComparison config a) := by
  obtain ⟨-, -, g, hg, hmeans⟩ := means_lowerCondition h hb
  have hfill : language.fill ps g = expected config c := hmeans ps hps
  rw [← holds_expected, ← hfill, Passes, filter?_of_writes hg]
  simp

theorem holds_condition_iff {filter : Option String}
    {g : Option (Formula (Comparison (Slot String)))}
    (h : Option.Rel (Writes quotes predicate?) filter g) (ps : List (Parameter Json)) :
    (∀ x ∈ g.map (language.fill ps), x.Holds (d.Satisfies R)) ↔
      ∀ f ∈ filter, Passes R ps f d := by
  cases h with
  | none => simp
  | some hg => simp [Passes, filter?_of_writes hg]

theorem satisfies_keys_iff {ps : List (Parameter Json)} {keys : List Json}
    (h : keys ≠ [] → placeholders.look ps keysName = some (.array keys)) :
    (∀ v ∈ (if keys.isEmpty then none else some (.one keysName)).map (language.value? ps),
        d.Satisfies R ⟨.oneOf, keyAttribute, v⟩) ↔
      keys = [] ∨ ∃ k ∈ keys, R .equals (d.attributes keyAttribute) k := by
  cases keys with
  | nil => simp
  | cons k ks =>
    have hvalue : language.value? ps (.one keysName) = some (.array (k :: ks)) := h (by simp)
    simp [hvalue, Doc.Satisfies, Compares]

/-- What a loop says besides its documents: the order, the window and the attributes. -/
structure Frame where
  order : List SortKey
  skip : Nat
  limit : Nat
  keep : List String

/-- The frame of a loop. -/
def Loop.frame {V : Type} (l : Loop V) : Frame := ⟨l.order, l.skip, l.limit, l.keep⟩

/-- **An assembled statement selects by its keys, if there are any, and its filter, if there is
one.** -/
theorem selects_assemble {q : Query} {l : Lowered String Json} {s : Statement String Json}
    (hl : (dialect (Except QueryError)).Lowering config q l) (hs : assemble config q l = .ok s) :
    s.keyLookup = l.keyLookup ∧ s.filter = l.filter ∧ l.parameters <+: s.parameters ∧
      (parse? s.statement).map Loop.frame = some (Loop.ofQuery config q none none).frame ∧
      ∀ d, Selects R s d ↔ d.collection = q.entity ∧
        (s.keyLookup = [] ∨ ∃ k ∈ s.keyLookup, R .equals (d.attributes keyAttribute) k) ∧
        ∀ f ∈ s.filter, Passes R s.parameters f d := by
  obtain ⟨_, rest, -, -, hrest⟩ := Dialect.exists_divided rfl hl
  obtain ⟨l', hbind, hfinish⟩ := bind_eq_ok.mp hs
  obtain ⟨hfilter, hlookup, hprefix, hlook⟩ := bindKeys_eq_ok hbind
  obtain ⟨g, hg, -⟩ := exists_condition hrest hbind
  obtain ⟨hparameters, hparse⟩ := parse_assemble hbind hs hg
  have hkeys : s.keyLookup = l'.keyLookup := by rw [← pure_eq_ok.mp hfinish, Lowered.finish]
  have hfilters : s.filter = l'.filter := by rw [← pure_eq_ok.mp hfinish, Lowered.finish]
  refine ⟨hkeys.trans hlookup, hfilters.trans hfilter, hparameters ▸ hprefix, ?_, fun d => ?_⟩
  · rw [hparse]
    rfl
  · have hlooked : l'.keyLookup ≠ [] →
        placeholders.look s.parameters keysName = some (.array l'.keyLookup) := by
      rw [hparameters, hlookup]
      exact hlook
    have hbound := satisfies_keys_iff (R := R) (d := d) hlooked
    have hcondition := holds_condition_iff (R := R) (d := d) hg s.parameters
    simp only [Selects, hparse, Option.some.injEq, exists_eq_left', Loop.Selects, Loop.map]
    rw [hkeys, hfilters, ← hbound, ← hcondition]
    rfl

/-- **Keys, filters and statements select what they should.** -/
def selection (R : Operator → Json → Json → Prop) :
    Selection (dialect (Except QueryError)) Doc (Option Frame) where
  Satisfies config d a := d.Satisfies R (plainComparison config a)
  Fetches key d := R .equals (d.attributes keyAttribute) key
  Passes := Passes R
  Belongs q d := d.collection = q.entity
  Selects := Selects R
  frame s := (parse? s.statement).map Loop.frame
  asked config q := some (Loop.ofQuery config q none none).frame
  satisfies_lookup _ _ _ := rfl
  asked_lookup _ _ _ := rfl
  satisfies_singleton _ _ _ _ := satisfies_equals_singleton
  satisfies_iff_fetches h _ := satisfies_keyAttribute_iff h
  passes_iff h _ hps _ := passes_lowerCondition ⟨rfl, rfl⟩ h hps
  assembles := selects_assemble

end PortableQuery.Aql
