import PortableQuery.Proofs.Aql.Selection
import PortableQuery.Proofs.Search.Selection

set_option autoImplicit false

/-!
# Key lookups in AQL and in searches

Both stores fetch by key: a loop over the documents of its keys, a body with an `ids` clause. What
is said of key lookups in general holds of them for any comparison of the stores.
-/

namespace PortableQuery

/-- **A compiled AQL loop or search body looks up the keys that the first possible predicate asks
for and filters by what is left, and so selects the documents that the condition holds of, as it
does without key lookups.** -/
theorem diverts_keys {config : CompilerConfig} (hlookup : config.pointLookup = true) {q : Query}
    {c : Condition} (hq : q.condition = some c) :
    (∀ s, (Aql.dialect (Except QueryError)).compile config q = .ok s →
      ∀ R, (Aql.selection R).Diverts config q c s) ∧
    ∀ index s, (Search.dialect (Except QueryError) index).compile config q = .ok s →
      ∀ R, (Search.selection index R).Diverts config q c s :=
  ⟨fun _ h _ => Selection.diverts rfl hlookup hq h,
    fun _ _ h _ => Selection.diverts rfl hlookup hq h⟩

/-- A query with several predicates on the identity, at the root of its condition and below. -/
def severalKeys : Query where
  entity := "Person"
  condition := some (.join .and [
    .join .or [.predicate .equals ⟨"_id", .int 1⟩, .predicate .less ⟨"age", .int 2⟩],
    .not (.predicate .equals ⟨"_id", .text "x"⟩),
    .predicate .oneOf ⟨"_id", .list [.text "a", .int 2]⟩,
    .predicate .equals ⟨"_id", .text "a"⟩])

theorem diverts_keys_severalKeys :
    ∃ c, severalKeys.condition = some c ∧
      (∃ s, (Aql.dialect (Except QueryError)).compile {} severalKeys = .ok s ∧
        s.keyLookup = [.string "a", .int 2] ∧ ∀ R, (Aql.selection R).Diverts {} severalKeys c s) ∧
      ∃ s, (Search.dialect (Except QueryError) ⟨"catalog", "kind"⟩).compile {} severalKeys =
          .ok s ∧ s.keyLookup = [.string "a", .int 2] ∧
        ∀ R, (Search.selection ⟨"catalog", "kind"⟩ R).Diverts {} severalKeys c s :=
  ⟨_, rfl, ⟨_, rfl, rfl, (@diverts_keys {} rfl severalKeys _ rfl).1 _ rfl⟩,
    _, rfl, rfl, (@diverts_keys {} rfl severalKeys _ rfl).2 ⟨"catalog", "kind"⟩ _ rfl⟩

end PortableQuery
