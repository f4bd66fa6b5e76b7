import PortableQuery.Cql.Select
import PortableQuery.Document.ExtendedJson
import PortableQuery.Proofs.Form.Query
import PortableQuery.Sql.Select

set_option autoImplicit false

/-!
# Queries as JSON

A query is written as JSON and read back where it is run. A double without digits is written as
null, which no double is read from, so a query that compares with one can be built, compiled and
stored, but not read back.
-/

namespace PortableQuery.Query

/-- **A query is read back exactly if all of its doubles are finite**, wherever its JSON stands, and
then as what the texts in the JSON stand for. That is the query itself exactly if no decimal zero in
it has a sign and no leap second lies inside a minute. -/
theorem read_back_iff (p : Placement) (q : Query) :
    ((∃ r, ofJson? p q.toJson = some r) ↔ ∀ v ∈ q.values, v.FiniteDoubles) ∧
      (∀ r, ofJson? p q.toJson = some r → r = q.asWritten) ∧
      (q.asWritten = q ↔
        ∀ v ∈ q.values, v.Everywhere Value.HasPlainZero ∧ v.Everywhere Value.HasPlainSecond) := by
  refine ⟨⟨?_, fun hfinite => ⟨_, ofJson?_toJson_eq_some.mpr ⟨hfinite, rfl⟩⟩⟩, fun r hr => ?_,
    asWritten_eq_self⟩
  · rintro ⟨r, hr⟩
    exact (ofJson?_toJson_eq_some.mp hr).1
  · exact (ofJson?_toJson_eq_some.mp hr).2

/-- A query for the persons that have this score. -/
def scoring (score : Value) : Query where
  entity := "person"
  condition := some (.predicate .equals ⟨"score", score⟩)

/-- A negative zero among doubles, and a decimal. -/
def scores : Value := .list [.double (.finite (.zero true)), .decimal ⟨true, 5, 1⟩]

/-- They are read back as they are. -/
theorem read_back_iff_scores : ofJson? .part (scoring scores).toJson = some (scoring scores) := by
  have hfinite : ∀ v ∈ (scoring scores).values, v.FiniteDoubles := by
    refine List.forall_mem_singleton.mpr ?_
    simp (disch := decide) [scores, Value.everywhere_list, Value.everywhere_of_isScalar,
      Value.HasFiniteDouble]
  have hplain : ∀ v ∈ (scoring scores).values,
      v.Everywhere Value.HasPlainZero ∧ v.Everywhere Value.HasPlainSecond := by
    refine List.forall_mem_singleton.mpr ?_
    simp (disch := decide) [scores, Value.everywhere_list, Value.everywhere_of_isScalar,
      Value.HasPlainZero, Value.HasPlainSecond]
  obtain ⟨hread, hwritten, hself⟩ := read_back_iff .part (scoring scores)
  obtain ⟨r, hr⟩ := hread.mpr hfinite
  rw [hwritten r hr, hself.mpr hplain] at hr
  exact hr

/-- A score without digits can be built, compiled and written to a document. In the JSON form it is
null, and the query is not read back. -/
theorem not_read_back :
    ((QueryBuilder.start "person").condition (.predicate .equals ⟨"score", .double .nan⟩)).build =
      .ok (scoring (.double .nan)) ∧
    (∃ s, (Sql.dialect (Except QueryError) none).compile {} (scoring (.double .nan)) = .ok s) ∧
    (∃ s, (Cql.dialect (m := Except QueryError) ⟨"k", [], true⟩ none).compile {}
      (scoring (.double .nan)) = .ok s) ∧
    (∃ j, Document.encode ⟨"person", "score"⟩ (.double .nan) = .ok j) ∧
    (Value.double .nan).toJson.text = "\x7b\"double\":null\x7d" ∧
    ∀ p, ofJson? p (scoring (.double .nan)).toJson = none := by
  refine ⟨rfl, ⟨_, rfl⟩, ⟨_, rfl⟩, ⟨_, rfl⟩, by decide +kernel, fun p => ?_⟩
  cases p <;> rfl

end PortableQuery.Query
