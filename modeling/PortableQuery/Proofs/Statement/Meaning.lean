import PortableQuery.Proofs.Statement.Grammar
import PortableQuery.Proofs.Statement.Placeholder

set_option autoImplicit false

/-!
# What a lowered condition means

A condition that is lowered to text is read back by the grammar of the language, and every
placeholder in it is looked up among the parameters. Languages that join and negate in parentheses
differ in their atoms only.
-/

namespace PortableQuery

/-- A query language with filters in the common grammar. -/
structure Language (κ N : Type) where
  quotes : List Lexer.Quote
  atom : Reader (Comparison (Slot κ))
  placeholders : Placeholders κ N
  /-- What the word for null stands for. -/
  null : N
  /-- What a list of values is as a value. -/
  list : List N → N

namespace Language

variable {κ N : Type} (L : Language κ N)

/-- The value that a slot stands for among parameters. -/
def value? (ps : List (Parameter N)) : Slot κ → Option N :=
  Slot.value? (L.placeholders.look ps) L.null L.list

/-- The formula with every slot replaced by what it stands for. -/
def fill (ps : List (Parameter N)) (g : Formula (Comparison (Slot κ))) :
    Formula (Comparison (Option N)) :=
  g.map (Comparison.map (L.value? ps))

/-- The text of `c`, lowered between the binders `b` and `b'`, is read back as `expected c` in every
statement that holds the parameters of `b'`, and no value is missing there. -/
structure Keeps (expected : Condition → Formula (Comparison (Option N))) (c : Condition)
    (b : Binder N) (text : String) (b' : Binder N) : Prop where
  toExtends : b.Extends b'
  complete : ∃ r : Formula (Comparison N), expected c = r.map (Comparison.map some)
  reads : ∃ g, Grammar.Writes L.quotes L.atom text g ∧
    ∀ ps, b'.parameters <+: ps → L.fill ps g = expected c

/-- The same from every binder that hands out the placeholders of the language. -/
def Means (expected : Condition → Formula (Comparison (Option N))) (c : Condition) (b : Binder N)
    (text : String) (b' : Binder N) : Prop :=
  L.placeholders.Ready b → L.Keeps expected c b text b'

variable {L} {expected : Condition → Formula (Comparison (Option N))}

theorem keeps_atom {c : Condition} {b b' : Binder N} {text field : String} {o : Operator}
    {slot : Slot κ} {v : N} (hexp : expected c = .atom ⟨o, field, some v⟩) (hb : b.Extends b')
    (hw : Grammar.Writes L.quotes L.atom text (.atom ⟨o, field, slot⟩))
    (hv : ∀ ps, b'.parameters <+: ps → L.value? ps slot = some v) :
    L.Keeps expected c b text b' := by
  refine ⟨hb, ⟨.atom ⟨o, field, v⟩, hexp⟩, _, hw, fun ps hps => ?_⟩
  rw [fill, Formula.map_atom, Comparison.map, hv ps hps, hexp]

theorem exists_of_chain {cs : List Condition} {b b' : Binder N} {texts : List String}
    (h : Dialect.Chain (L.Means expected) cs b texts b') (hb : L.placeholders.Ready b) :
    b.Extends b' ∧
      (∃ rs : List (Formula (Comparison N)),
        cs.map expected = rs.map (·.map (Comparison.map some))) ∧
      ∃ gs, List.Forall₂ (Grammar.Writes L.quotes L.atom) texts gs ∧
        ∀ ps, b'.parameters <+: ps → gs.map (L.fill ps) = cs.map expected := by
  induction h with
  | nil b => exact ⟨.refl b, ⟨[], rfl⟩, [], .nil, fun _ _ => rfl⟩
  | cons hc _ ih =>
    obtain ⟨hext, ⟨r, hr⟩, g, hg, hmeans⟩ := hc hb
    obtain ⟨hext', ⟨rs, hrs⟩, gs, hgs, hmeans'⟩ := ih (hb.extends hext)
    refine ⟨hext.trans hext', ⟨r :: rs, by rw [List.map_cons, List.map_cons, hr, hrs]⟩, g :: gs,
      .cons hg hgs, fun ps hps => ?_⟩
    rw [List.map_cons, List.map_cons, hmeans ps (hext'.parameters.trans hps), hmeans' ps hps]

/-- **A join in parentheses keeps the meaning of its parts.** -/
theorem means_join {c : Connective} {cs : List Condition} {b b' : Binder N} {texts : List String}
    (hexp : expected (.join c cs) = .joined c (cs.map expected)) (hne : cs ≠ [])
    (h : Dialect.Chain (L.Means expected) cs b texts b') :
    L.Means expected (.join c cs) b
      (String.intercalate (" " ++ c.name ++ " ") (texts.map fun p => "(" ++ p ++ ")")) b' := by
  intro hb
  obtain ⟨hext, ⟨rs, hrs⟩, gs, hgs, hmeans⟩ := exists_of_chain h hb
  have hgs_ne : gs ≠ [] := by
    rintro rfl
    have hlen := h.length_eq
    rw [hgs.length_eq] at hlen
    exact hne (List.length_eq_zero_iff.mp hlen.symm)
  refine ⟨hext, ⟨.joined c rs, ?_⟩, .joined c gs, Grammar.writes_join c hgs hgs_ne,
    fun ps hps => ?_⟩
  · rw [Formula.map_joined, hexp, hrs]
  · rw [fill, Formula.map_joined, hexp, ← hmeans ps hps]
    rfl

/-- **A negation in parentheses keeps the meaning of what it negates.** -/
theorem means_not {c : Condition} {b b' : Binder N} {text : String}
    (hexp : expected (.not c) = .not (expected c)) (h : L.Means expected c b text b') :
    L.Means expected (.not c) b ("NOT (" ++ text ++ ")") b' := by
  intro hb
  obtain ⟨hext, ⟨r, hr⟩, g, hg, hmeans⟩ := h hb
  refine ⟨hext, ⟨.not r, ?_⟩, .not g, Grammar.writes_not hg, fun ps hps => ?_⟩
  · rw [Formula.map_not, hexp, hr]
  · rw [fill, Formula.map_not, hexp, ← hmeans ps hps]
    rfl

end Language

end PortableQuery
