import PortableQuery.Proofs.Lowering.Keys

set_option autoImplicit false

/-!
# Looking keys up changes nothing

A predicate on the identity that becomes a key lookup is no longer in the filter, so the documents
that a statement selects depend on both. A store says what its keys, filters and statements select;
the rest follows for every store.
-/

namespace PortableQuery

/-- The documents that are selected by what a dialect makes of a query, with what has to be known of
single predicates, conditions and statements. -/
structure Selection {F N : Type} (d : Dialect (Except QueryError) F N) (Doc Frame : Type) where
  /-- The document satisfies a comparison of a condition. -/
  Satisfies : CompilerConfig → Doc → Comparison Value → Prop
  /-- The document is the one of a key. -/
  Fetches : N → Doc → Prop
  /-- A filter, its placeholders resolved among the parameters, holds of the document. -/
  Passes : List (Parameter N) → F → Doc → Prop
  /-- The document is one of those that a query is about. -/
  Belongs : Query → Doc → Prop
  /-- A statement selects the document, if its window is wide enough. -/
  Selects : Statement F N → Doc → Prop
  /-- What else a statement says: the order, the window and the projection. -/
  frame : Statement F N → Frame
  /-- What else a query asks for. -/
  asked : CompilerConfig → Query → Frame
  satisfies_lookup (config : CompilerConfig) (lookup : Bool) (doc : Doc) :
    Satisfies { config with pointLookup := lookup } doc = Satisfies config doc
  asked_lookup (config : CompilerConfig) (lookup : Bool) (q : Query) :
    asked { config with pointLookup := lookup } q = asked config q
  satisfies_singleton (config : CompilerConfig) (doc : Doc) (field : String) (v : Value) :
    Satisfies config doc ⟨.equals, field, v⟩ ↔ Satisfies config doc ⟨.oneOf, field, .list [v]⟩
  /-- A document whose identity is listed is the one of a key. -/
  satisfies_iff_fetches {config : CompilerConfig} {entity : String} {items : List Value}
    {ns : List N} (h : List.Forall₂
      (fun v n => d.toNative ⟨entity, config.idField⟩ v = .ok n) items ns) (doc : Doc) :
    Satisfies config doc ⟨.oneOf, config.idField, .list items⟩ ↔ ∃ n ∈ ns, Fetches n doc
  /-- A lowered condition holds as a filter where the condition does. -/
  passes_iff {config : CompilerConfig} {entity : String} {c : Condition} {f : F} {b : Binder N}
    (h : d.lowerCondition config entity c { style := d.style } = .ok (f, b))
    {ps : List (Parameter N)} (hps : b.parameters <+: ps) (doc : Doc) :
    Passes ps f doc ↔ c.formula.Holds (Satisfies config doc)
  /-- A statement selects by its keys, if there are any, and its filter, if there is one. -/
  assembles {config : CompilerConfig} {q : Query} {l : Lowered F N} {s : Statement F N}
    (hl : d.Lowering config q l) (hs : d.assemble config q l = .ok s) :
    s.keyLookup = l.keyLookup ∧ s.filter = l.filter ∧ l.parameters <+: s.parameters ∧
      frame s = asked config q ∧ ∀ doc, Selects s doc ↔ Belongs q doc ∧
        (s.keyLookup = [] ∨ ∃ k ∈ s.keyLookup, Fetches k doc) ∧
        ∀ f ∈ s.filter, Passes s.parameters f doc

namespace Selection

variable {F N Doc Frame : Type} {d : Dialect (Except QueryError) F N} (S : Selection d Doc Frame)
  {config : CompilerConfig} {q : Query} {c : Condition} {s : Statement F N}

/-- Keys are not looked up, or one of them is that of the document. -/
def Fetched (s : Statement F N) (doc : Doc) : Prop :=
  s.keyLookup = [] ∨ ∃ k ∈ s.keyLookup, S.Fetches k doc

/-- There is no filter, or it holds of the document. -/
def Filtered (s : Statement F N) (doc : Doc) : Prop :=
  ∀ f ∈ s.filter, S.Passes s.parameters f doc

/-- What a statement has made of the condition `c` of a query, keys being looked up. -/
structure Diverts (config : CompilerConfig) (q : Query) (c : Condition) (s : Statement F N) :
    Prop where
  /-- Keys are looked up if and only if the condition, or a child of a root conjunction, asks for
  some. -/
  lookup_iff : s.keyLookup ≠ [] ↔ (∃ v, c.Wants config.idField v) ∨
    ∃ cs, c = .join .and cs ∧ ∃ k ∈ cs, ∃ v, k.Wants config.idField v
  /-- The keys are those that the first such predicate asks for, and the filter is what is left. -/
  divided : ∃ keys rest ps, Divided config (some c) keys rest ∧
    d.KeysConverted ⟨q.entity, config.idField⟩ keys s.keyLookup ∧
    d.RestLowered config q.entity rest s.filter ps ∧ ps <+: s.parameters
  /-- The condition holds of the documents that are fetched and pass the filter. -/
  holds_iff (doc : Doc) :
    c.formula.Holds (S.Satisfies config doc) ↔ S.Fetched s doc ∧ S.Filtered s doc
  /-- The statement that looks no keys up selects the same documents, in the same frame. -/
  selects_iff {s' : Statement F N} (h : d.compile { config with pointLookup := false } q = .ok s') :
    S.frame s = S.frame s' ∧ ∀ doc, S.Selects s doc ↔ S.Selects s' doc

variable {S}

theorem satisfies_keys {scope : Scope} (hscope : scope.field = config.idField)
    {keys : Option Value} {ns : List N} (h : d.KeysConverted scope keys ns) (doc : Doc) :
    (∀ v ∈ keys, S.Satisfies config doc ⟨.oneOf, config.idField, v⟩) ↔
      ns = [] ∨ ∃ n ∈ ns, S.Fetches n doc := by
  cases h with
  | none => simp
  | @some items ns hne hns =>
    have hns_ne : ns ≠ [] := by
      rintro rfl
      exact hne (List.forall₂_nil_right_iff.mp hns)
    obtain ⟨entity, field⟩ := scope
    obtain rfl : field = config.idField := hscope
    simp [hns_ne, S.satisfies_iff_fetches hns]

theorem satisfies_rest {entity : String} {rest : Option Condition} {filter : Option F}
    {ps ps' : List (Parameter N)} (h : d.RestLowered config entity rest filter ps)
    (hps : ps <+: ps') (doc : Doc) :
    (∀ x ∈ rest, x.formula.Holds (S.Satisfies config doc)) ↔
      ∀ f ∈ filter, S.Passes ps' f doc := by
  cases h with
  | none => simp
  | some hc => simp [S.passes_iff hc hps]

theorem holds_of_wants {k : Condition} {v : Value} (h : k.Wants config.idField v) (doc : Doc) :
    k.formula.Holds (S.Satisfies config doc) ↔
      S.Satisfies config doc ⟨.oneOf, config.idField, v⟩ := by
  cases h with
  | equals v => exact S.satisfies_singleton config doc config.idField v
  | oneOf v => exact Iff.rfl

theorem exists_divided (hd : d.capabilities.pointLookup = true)
    (h : d.compile config q = .ok s) :
    (∃ keys rest ps, Divided config q.condition keys rest ∧
      d.KeysConverted ⟨q.entity, config.idField⟩ keys s.keyLookup ∧
      d.RestLowered config q.entity rest s.filter ps ∧ ps <+: s.parameters) ∧
    S.frame s = S.asked config q ∧
      ∀ doc, S.Selects s doc ↔ S.Belongs q doc ∧ S.Fetched s doc ∧ S.Filtered s doc := by
  obtain ⟨l, hl, hs⟩ := Dialect.exists_lowering_of_compile h
  obtain ⟨keys, rest, hdivided, hkeys, hrest⟩ := Dialect.exists_divided hd hl
  obtain ⟨hlookup, hfilter, hprefix, hselects⟩ := S.assembles hl hs
  rw [← hlookup] at hkeys
  rw [← hfilter] at hrest
  exact ⟨⟨keys, rest, l.parameters, hdivided, hkeys, hrest, hprefix⟩, hselects⟩

/-- **A condition holds of the documents that are fetched and pass the filter.** -/
theorem holds_iff_fetched (hd : d.capabilities.pointLookup = true) (h : d.compile config q = .ok s)
    (doc : Doc) : (∀ x ∈ q.condition, x.formula.Holds (S.Satisfies config doc)) ↔
      S.Fetched s doc ∧ S.Filtered s doc := by
  obtain ⟨⟨keys, rest, ps, hdivided, hkeys, hrest, hps⟩, -⟩ := exists_divided (S := S) hd h
  rw [hdivided.holds_iff (fun _ _ hk => holds_of_wants hk doc), satisfies_keys rfl hkeys,
    satisfies_rest hrest hps]
  exact Iff.rfl

/-- **A statement selects the documents that the condition holds of, keys being looked up or
not.** -/
theorem selects_iff_holds (hd : d.capabilities.pointLookup = true) (h : d.compile config q = .ok s)
    (doc : Doc) : S.Selects s doc ↔
      S.Belongs q doc ∧ ∀ x ∈ q.condition, x.formula.Holds (S.Satisfies config doc) := by
  have hselects := (exists_divided (S := S) hd h).2.2 doc
  rw [hselects, holds_iff_fetched hd h]

/-- **Whatever is compiled with key lookups selects what its condition holds of, and the same
documents as without.** -/
theorem diverts (hd : d.capabilities.pointLookup = true) (hlookup : config.pointLookup = true)
    (hq : q.condition = some c) (h : d.compile config q = .ok s) : S.Diverts config q c s := by
  have hdivided := (exists_divided (S := S) hd h).1
  rw [hq] at hdivided
  constructor
  · obtain ⟨keys, rest, ps, hdivided, hkeys, -⟩ := hdivided
    rw [Ne, hkeys.eq_nil_iff]
    exact hdivided.keys_ne_none_iff hlookup
  · exact hdivided
  · intro doc
    rw [← holds_iff_fetched hd h doc, hq]
    simp
  · intro s' h'
    have hframe : S.frame s = S.asked config q := (exists_divided hd h).2.1
    have hframe' : S.frame s' = S.asked { config with pointLookup := false } q :=
      (exists_divided hd h').2.1
    refine ⟨by rw [hframe, hframe', S.asked_lookup config false q], fun doc => ?_⟩
    rw [selects_iff_holds hd h doc, selects_iff_holds hd h' doc, S.satisfies_lookup config false doc]

end Selection

end PortableQuery
