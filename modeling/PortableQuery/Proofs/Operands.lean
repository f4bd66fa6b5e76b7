import PortableQuery.Proofs.Aql.Placeholders
import PortableQuery.Proofs.Cql.Placeholders
import PortableQuery.Proofs.Document.Operands
import PortableQuery.Proofs.Search.Operands
import PortableQuery.Proofs.Sql.Placeholders

set_option autoImplicit false

/-!
# Operands, values and placeholders

Whatever the dialect, the values of a statement are the operands of its condition, and the statement
uses them in the order in which they are bound.
-/

namespace PortableQuery

/-- **In every dialect the parameters are the operands of the condition that is not looked up by
key, converted one by one, from left to right; the keys of AQL come last. Every placeholder is
written once and in that order: numbered in SQL, a question mark in CQL, numbered behind the name of
its field in AQL. The filters of the other two hold the values themselves, in that order.** -/
theorem operands_line_up (config : CompilerConfig) (q : Query) :
    (∀ schema s, (Sql.dialect (Except QueryError) schema).compile config q = .ok s →
      ∃ us, List.Forall₂ ((Sql.dialect (Except QueryError) schema).Bound (fun _ v => v) q.entity)
          ((operandsOf q.condition).filter Sql.bindsOperand) us ∧
        s.parameters = us.map (fun u => ⟨none, u.value⟩) ∧
        Lexer.placeholders? Sql.quotes s.statement =
          some ((List.range' 1 us.length).map fun i => "$" ++ toString i)) ∧
    (∀ k schema s, (Cql.dialect (m := Except QueryError) k schema).compile config q = .ok s →
      ∃ us, List.Forall₂
          ((Cql.dialect (m := Except QueryError) k schema).Bound (fun _ v => v) q.entity)
          (operandsOf q.condition) us ∧
        s.parameters = us.map (fun u => ⟨none, u.value⟩) ∧
        Lexer.placeholders? Cql.quotes s.statement = some (List.replicate us.length "?")) ∧
    (∀ s, (Aql.dialect (Except QueryError)).compile config q = .ok s →
      ∃ keys rest us, Divided config q.condition keys rest ∧
        (Aql.dialect (Except QueryError)).KeysConverted ⟨q.entity, config.idField⟩ keys
          s.keyLookup ∧
        List.Forall₂ ((Aql.dialect (Except QueryError)).Bound (fun _ v => v) q.entity)
          (operandsOf rest) us ∧
        s.parameters = us.mapIdx (fun i u => ⟨some (parameterName u.name (1 + i)), u.value⟩) ++
          (if s.keyLookup.isEmpty then [] else [⟨some "keys", .array s.keyLookup⟩]) ∧
        Lexer.placeholders? Aql.quotes s.statement =
          some ((if s.keyLookup.isEmpty then [] else ["@keys"]) ++
            us.mapIdx fun i u => "@" ++ parameterName u.name (1 + i))) ∧
    (∀ s, (Document.dialect (Except QueryError)).compile config q = .ok s →
      ∃ us, List.Forall₂
          ((Document.dialect (Except QueryError)).Bound Document.operandOf q.entity)
          (operandsOf q.condition) us ∧
        s.parameters = us.map (fun u => ⟨none, u.value⟩) ∧ (s.filter = none → us = []) ∧
        ∀ f ∈ s.filter, ∃ g, (∀ t, Document.Reads f t ↔ t = g) ∧
          Document.operandsOf g = us.map (·.value)) ∧
    ∀ index s, (Search.dialect (Except QueryError) index).compile config q = .ok s →
      ∃ keys rest us, Divided config q.condition keys rest ∧
        (Search.dialect (Except QueryError) index).KeysConverted ⟨q.entity, config.idField⟩ keys
          s.keyLookup ∧
        List.Forall₂ ((Search.dialect (Except QueryError) index).Bound Search.termOf q.entity)
          (operandsOf rest) us ∧
        s.parameters = us.map (fun u => ⟨none, u.value⟩) ∧ (s.filter = none → us = []) ∧
        ∀ f ∈ s.filter, ∃ g, Search.read? f = some g ∧
          Search.operandsOf g = us.map (·.value) :=
  ⟨fun _ _ h => Sql.exists_of_compile h, fun _ _ _ h => Cql.exists_of_compile h,
    fun _ h => Aql.exists_of_compile h, fun _ h => Document.exists_of_compile h,
    fun _ _ h => Search.exists_of_compile h⟩

/-- A query by key with operands of every shape. -/
def manyOperands : Query where
  entity := "Person$1"
  condition := some (.join .and [
    .predicate .between ⟨"age ? $2", .list [.int 1, .int 2]⟩,
    .predicate .equals ⟨"_id", .text "p1"⟩,
    .join .and [.predicate .oneOf ⟨"@keys", .list [.text "a", .text "b"]⟩]])

theorem operands_line_up_manyOperands :
    (∃ s, (Sql.dialect (Except QueryError) none).compile {} manyOperands = .ok s ∧
      Lexer.placeholders? Sql.quotes s.statement = some ["$1", "$2", "$3", "$4", "$5"]) ∧
    (∃ s, (Cql.dialect (m := Except QueryError) ⟨"k", [], true⟩ none).compile {} manyOperands =
        .ok s ∧ Lexer.placeholders? Cql.quotes s.statement = some ["?", "?", "?", "?", "?"]) ∧
    (∃ s, (Aql.dialect (Except QueryError)).compile {} manyOperands = .ok s ∧
      ∃ ps, Lexer.placeholders? Aql.quotes s.statement = some ("@keys" :: ps) ∧ ps.length = 4) ∧
    (∃ s, (Document.dialect (Except QueryError)).compile {} manyOperands = .ok s ∧
      ∃ f, s.filter = some f ∧ ∃ g, Document.Reads f g ∧
        Document.operandsOf g = s.parameters.map (·.value)) ∧
    ∃ s, (Search.dialect (Except QueryError) ⟨"catalog", "kind"⟩).compile {} manyOperands =
        .ok s ∧ ∃ f, s.filter = some f ∧ ∃ g, Search.read? f = some g ∧
      Search.operandsOf g = s.parameters.map (·.value) := by
  obtain ⟨hsql, hcql, haql, hdocument, hsearch⟩ := operands_line_up {} manyOperands
  refine ⟨?_, ?_, ?_, ?_, ?_⟩
  · obtain ⟨s, hs, hcount⟩ : ∃ s, (Sql.dialect (Except QueryError) none).compile {} manyOperands =
        .ok s ∧ s.parameters.length = 5 := ⟨_, rfl, rfl⟩
    obtain ⟨us, -, hparameters, hplaceholders⟩ := hsql none s hs
    rw [hparameters, List.length_map] at hcount
    rw [hcount] at hplaceholders
    exact ⟨s, hs, hplaceholders⟩
  · obtain ⟨s, hs, hcount⟩ : ∃ s, (Cql.dialect (m := Except QueryError) ⟨"k", [], true⟩ none).compile
        {} manyOperands = .ok s ∧ s.parameters.length = 5 := ⟨_, rfl, rfl⟩
    obtain ⟨us, -, hparameters, hplaceholders⟩ := hcql ⟨"k", [], true⟩ none s hs
    rw [hparameters, List.length_map] at hcount
    rw [hcount] at hplaceholders
    exact ⟨s, hs, hplaceholders⟩
  · obtain ⟨s, hs, hkeys, hcount⟩ : ∃ s, (Aql.dialect (Except QueryError)).compile {} manyOperands =
        .ok s ∧ s.keyLookup.isEmpty = false ∧ s.parameters.length = 5 := ⟨_, rfl, rfl, rfl⟩
    obtain ⟨keys, rest, us, -, -, -, hparameters, hplaceholders⟩ := haql s hs
    rw [hparameters, hkeys, List.length_append, List.length_mapIdx] at hcount
    rw [hkeys] at hplaceholders
    exact ⟨s, hs, _, hplaceholders, by simpa using hcount⟩
  · obtain ⟨s, f, hs, hf⟩ : ∃ s f, (Document.dialect (Except QueryError)).compile {} manyOperands =
        .ok s ∧ s.filter = some f := ⟨_, _, rfl, rfl⟩
    obtain ⟨us, -, hparameters, -, hfilter⟩ := hdocument s hs
    obtain ⟨g, hg, hoperands⟩ := hfilter f hf
    have hvalues : s.parameters.map (·.value) = us.map (·.value) := by
      rw [hparameters, List.map_map]
      rfl
    exact ⟨s, hs, f, hf, g, (hg g).mpr rfl, hoperands.trans hvalues.symm⟩
  · obtain ⟨s, f, hs, hf⟩ : ∃ s f, (Search.dialect (Except QueryError) ⟨"catalog", "kind"⟩).compile {}
        manyOperands = .ok s ∧ s.filter = some f := ⟨_, _, rfl, rfl⟩
    obtain ⟨keys, rest, us, -, -, -, hparameters, -, hfilter⟩ := hsearch ⟨"catalog", "kind"⟩ s hs
    obtain ⟨g, hg, hoperands⟩ := hfilter f hf
    have hvalues : s.parameters.map (·.value) = us.map (·.value) := by
      rw [hparameters, List.map_map]
      rfl
    exact ⟨s, hs, f, hf, g, hg, hoperands.trans hvalues.symm⟩

end PortableQuery
