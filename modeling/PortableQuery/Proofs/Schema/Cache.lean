import Mathlib.Data.List.Dedup
import PortableQuery.Schema.Cache

set_option autoImplicit false

/-!
# What a cache remembers

A cache is known by its history: what was asked, declared and forgotten, the latest step first. It
answers as the schema did when a pair was first asked for, it asks the schema for a pair once until
it is told to forget, and it holds one answer for each pair that was asked for since.
-/

namespace PortableQuery

/-- What happens to a cache and to the schema behind it. -/
inductive CacheStep where
  | lookup (key : TypeKey)
  | declare (entity : String) (t : UserType)
  | invalidate

/-- Steps that a cache has been through, the latest one first. -/
abbrev CacheHistory := List CacheStep

/-- The cache after a step. -/
def SchemaCache.after (cache : SchemaCache) : CacheStep → SchemaCache
  | .lookup (entity, type) => ((ask entity type).run cache).2
  | .declare entity t => cache.declare entity t
  | .invalidate => cache.invalidate

/-- The cache behind a history that has started with nothing remembered of a schema. -/
def SchemaCache.behind (schema : Schema) : CacheHistory → SchemaCache
  | [] => { source := { schema := schema } }
  | step :: history => (behind schema history).after step

namespace CacheHistory

/-- The pairs asked for since the cache was last told to forget, the latest one first. -/
def asked : CacheHistory → List TypeKey
  | [] => []
  | .lookup key :: history => key :: asked history
  | .declare _ _ :: history => asked history
  | .invalidate :: _ => []

/-- The pairs asked for in each period that the cache was told to forget. -/
def forgotten : CacheHistory → List (List TypeKey)
  | [] => []
  | .invalidate :: history => asked history :: forgotten history
  | .lookup _ :: history | .declare _ _ :: history => forgotten history

/-- The pairs asked for in each period between two times that the cache was told to forget. -/
def periods (history : CacheHistory) : List (List TypeKey) := history.asked :: history.forgotten

/-- The pair was asked for behind `earlier` for the first time in the period that is not over. -/
def FirstAsked (history : CacheHistory) (key : TypeKey) (earlier : CacheHistory) : Prop :=
  ∃ later, history = later ++ .lookup key :: earlier ∧ .invalidate ∉ later ∧ key ∉ earlier.asked

end CacheHistory

namespace Schema

variable (schema : Schema)

/-- The schema after what was declared in a history. -/
def following : CacheHistory → Schema
  | [] => schema
  | .declare entity t :: history => (following history).declare entity t
  | .lookup _ :: history | .invalidate :: history => following history

/-- The answer for a pair when it was first asked for, if it has been since the cache was told to
forget. -/
def firstAnswer? : CacheHistory → TypeKey → Option (Option UserType)
  | [], _ => none
  | .lookup asked :: history, key =>
    (firstAnswer? history key).or
      (if key = asked then some ((schema.following history).userType? key.1 key.2) else none)
  | .declare _ _ :: history, key => firstAnswer? history key
  | .invalidate :: _, _ => none

/-- The schema after a history, with every pair that was asked for frozen at its first answer. -/
def frozen (history : CacheHistory) (entity type : String) : Option UserType :=
  (schema.firstAnswer? history (entity, type)).getD
    ((schema.following history).userType? entity type)

end Schema

/-! ## One step -/

/-- A cache answers from memory, or it asks and remembers. -/
theorem SchemaCache.run_ask (cache : SchemaCache) (entity type : String) :
    (ask entity type).run cache = match cache.entries.lookup (entity, type) with
      | some answer => (answer, cache)
      | none =>
        let answer := cache.source.schema.userType? entity type
        (answer, ⟨⟨cache.source.schema, cache.source.calls + 1⟩,
          ((entity, type), answer) :: cache.entries⟩) := by
  rw [ask]
  simp only [StateT.run_bind, StateT.run_get, pure_bind]
  cases cache.entries.lookup (entity, type) <;> rfl

namespace SchemaCache

variable {schema : Schema} {history : CacheHistory}

theorem schema_behind (history : CacheHistory) :
    (behind schema history).source.schema = schema.following history := by
  induction history with
  | nil => rfl
  | cons step history ih =>
    cases step with
    | lookup key =>
      rw [behind, after, run_ask]
      split <;> exact ih
    | declare entity t =>
      rw [Schema.following, ← ih]
      rfl
    | invalidate => exact ih

/-- **The cache holds the first answer for each pair.** -/
theorem lookup_behind (history : CacheHistory) (key : TypeKey) :
    (behind schema history).entries.lookup key = schema.firstAnswer? history key := by
  induction history with
  | nil => rfl
  | cons step history ih =>
    cases step with
    | lookup asked =>
      obtain ⟨entity, type⟩ := asked
      rw [behind, after, run_ask, Schema.firstAnswer?, ← ih]
      cases hhit : (behind schema history).entries.lookup (entity, type) with
      | some answer =>
        by_cases hkey : key = (entity, type)
        · subst hkey
          simp [hhit]
        · simp [hkey]
      | none =>
        by_cases hkey : key = (entity, type)
        · subst hkey
          simp [hhit, schema_behind]
        · rw [List.lookup_cons, beq_false_of_ne hkey, if_neg hkey, Option.or_none]
    | declare entity t => exact ih
    | invalidate => rfl

theorem lookup_eq_none_iff (entries : List (TypeKey × Option UserType)) (key : TypeKey) :
    entries.lookup key = none ↔ key ∉ entries.map (·.1) := by
  simp only [List.lookup_eq_none_iff, List.mem_map, not_exists, not_and, bne_iff_ne, ne_eq,
    eq_comm (a := key)]

/-- **The cache holds one answer for each pair that was asked for, in that order.** -/
theorem keys_behind (history : CacheHistory) :
    (behind schema history).entries.map (·.1) = history.asked.dedup := by
  induction history with
  | nil => rfl
  | cons step history ih =>
    cases step with
    | lookup asked =>
      obtain ⟨entity, type⟩ := asked
      rw [behind, after, run_ask, CacheHistory.asked]
      cases hhit : (behind schema history).entries.lookup (entity, type) with
      | some answer =>
        have hmem : (entity, type) ∈ CacheHistory.asked history := by
          rw [← List.mem_dedup, ← ih, ← not_not (a := _ ∈ _), ← lookup_eq_none_iff, hhit]
          nofun
        rw [List.dedup_cons_of_mem hmem]
        exact ih
      | none =>
        rw [lookup_eq_none_iff, ih, List.mem_dedup] at hhit
        rw [List.dedup_cons_of_notMem hhit, ← ih, List.map_cons]
    | declare entity t => exact ih
    | invalidate => rfl

/-- **The cache holds as many answers as pairs were asked for since it was told to forget.** -/
theorem size_behind (history : CacheHistory) :
    (behind schema history).size = history.asked.dedup.length := by
  rw [size, ← List.length_map (·.1), keys_behind]

theorem firstAnswer?_eq_none_iff {key : TypeKey} :
    schema.firstAnswer? history key = none ↔ key ∉ history.asked := by
  rw [← lookup_behind, lookup_eq_none_iff, keys_behind, List.mem_dedup]

/-- **The cache answers as the schema does whose answers are frozen.** -/
theorem answer_behind (history : CacheHistory) (entity type : String) :
    ((ask entity type).run (behind schema history)).1 = schema.frozen history entity type := by
  rw [run_ask, Schema.frozen, lookup_behind, schema_behind]
  cases schema.firstAnswer? history (entity, type) <;> rfl

/-- **A pair is asked for if it was not since the cache was told to forget.** -/
theorem calls_lookup (history : CacheHistory) (key : TypeKey) :
    (behind schema (.lookup key :: history)).source.calls =
      (behind schema history).source.calls + if key ∈ history.asked then 0 else 1 := by
  obtain ⟨entity, type⟩ := key
  rw [behind, after, run_ask, lookup_behind]
  cases hanswer : schema.firstAnswer? history (entity, type) with
  | some answer =>
    have hmem : (entity, type) ∈ history.asked := by
      by_contra hmem
      rw [firstAnswer?_eq_none_iff.mpr hmem] at hanswer
      cases hanswer
    rw [if_pos hmem]
    rfl
  | none => rw [if_neg (firstAnswer?_eq_none_iff.mp hanswer)]

/-- **The schema is asked once for each pair of a period.** -/
theorem calls_behind (history : CacheHistory) :
    (behind schema history).source.calls =
      (history.periods.flatMap (·.dedup)).length := by
  induction history with
  | nil => rfl
  | cons step history ih =>
    cases step with
    | lookup key =>
      rw [calls_lookup, ih, CacheHistory.periods, CacheHistory.periods, CacheHistory.asked,
        CacheHistory.forgotten, List.flatMap_cons, List.flatMap_cons, List.length_append,
        List.length_append]
      by_cases hmem : key ∈ CacheHistory.asked history
      · rw [if_pos hmem, List.dedup_cons_of_mem hmem, Nat.add_zero]
      · rw [if_neg hmem, List.dedup_cons_of_notMem hmem, List.length_cons]
        omega
    | declare entity t => exact ih
    | invalidate =>
      rw [behind, after, invalidate, ih]
      simp [CacheHistory.periods, CacheHistory.asked, CacheHistory.forgotten]

end SchemaCache

/-! ## Where an answer comes from -/

/-- A pair that is asked for was asked for a first time since the cache was told to forget, and its
answer is the one of that time. -/
theorem CacheHistory.exists_firstAsked (schema : Schema) {history : CacheHistory} {key : TypeKey}
    {answer : Option UserType} (h : schema.firstAnswer? history key = some answer) :
    ∃ earlier, history.FirstAsked key earlier ∧
      answer = (schema.following earlier).userType? key.1 key.2 := by
  induction history with
  | nil => cases h
  | cons step history ih =>
    cases step with
    | lookup asked =>
      rw [Schema.firstAnswer?] at h
      cases hbefore : schema.firstAnswer? history key with
      | some before =>
        rw [hbefore] at h
        obtain ⟨earlier, ⟨later, hhistory, hforget, hfirst⟩, hanswer⟩ := ih (hbefore.trans h)
        exact ⟨earlier, ⟨.lookup asked :: later, by rw [hhistory, List.cons_append],
          by simpa using hforget, hfirst⟩, hanswer⟩
      | none =>
        rw [hbefore, Option.none_or] at h
        split at h
        · next hkey =>
          cases h
          subst hkey
          exact ⟨history, ⟨[], rfl, List.not_mem_nil,
            SchemaCache.firstAnswer?_eq_none_iff.mp hbefore⟩, rfl⟩
        · cases h
    | declare entity t =>
      obtain ⟨earlier, ⟨later, hhistory, hforget, hfirst⟩, hanswer⟩ := ih h
      exact ⟨earlier, ⟨.declare entity t :: later, by rw [hhistory, List.cons_append],
        by simpa using hforget, hfirst⟩, hanswer⟩
    | invalidate => cases h

namespace Schema

variable (schema : Schema) (history : CacheHistory)

theorem firstAnswer?_lookup (entity type : String) :
    schema.firstAnswer? (.lookup (entity, type) :: history) (entity, type) =
      some (schema.frozen history entity type) := by
  rw [firstAnswer?, if_pos rfl, frozen]
  cases schema.firstAnswer? history (entity, type) <;> rfl

theorem frozen_lookup (key : TypeKey) :
    schema.frozen (.lookup key :: history) = schema.frozen history := by
  funext entity type
  rw [frozen, frozen, firstAnswer?, following]
  cases schema.firstAnswer? history (entity, type) with
  | some answer => rfl
  | none =>
    by_cases hkey : (entity, type) = key
    · subst hkey
      simp
    · simp [hkey]

/-- **Asking for pairs leaves the frozen schema as it is.** -/
theorem frozen_asked (keys : List TypeKey) :
    schema.frozen (keys.map .lookup ++ history) = schema.frozen history := by
  induction keys with
  | nil => rfl
  | cons key keys ih => rw [List.map_cons, List.cons_append, frozen_lookup, ih]

end Schema

end PortableQuery
