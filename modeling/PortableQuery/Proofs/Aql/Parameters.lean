import Mathlib.Data.List.Nodup
import PortableQuery.Proofs.Aql.Placeholders
import PortableQuery.Proofs.Json.Plain
import PortableQuery.Proofs.Lowering.Naming

set_option autoImplicit false

/-!
# Parameters of AQL statements

The values of a statement are bound under names that are derived from fields, and its keys under a
name without an underscore, which no field leads to. So no two of them meet, and the names that are
bound are those that the text mentions.
-/

namespace PortableQuery.Aql

open Lexer

variable {config : CompilerConfig}

/-! ## No name is in use twice -/

theorem parameterName_ne_keysName (field : String) (n : Nat) :
    parameterName field n ≠ keysName := by
  intro h
  have hmem := underscore_mem_parameterName field n
  rw [h] at hmem
  exact absurd hmem (by decide)

theorem bindsFreely_lowerPredicate (p : Predicate Json) {b : Binder Json} (h : b.Derived) :
    BindsFreely (lowerPredicate p b) := by
  unfold lowerPredicate
  split
  · exact (Binder.bindsFreely_bindAll h _ _).bind fun _ hb => .ok hb
  · exact (Binder.bindsFreely_bind h _ _).bind fun _ hb =>
      (Binder.bindsFreely_bind hb _ _).bind fun _ hb' => .ok hb'
  · exact .error (not_isConflict_invalid _)
  · exact .error (not_isConflict_invalid _)
  · exact (Binder.bindsFreely_bind h _ _).bind fun _ hb => .ok hb
  · exact .error (not_isConflict_invalid _)

theorem namesFreely : (dialect (Except QueryError)).NamesFreely where
  toNative scope v := ((Value.errsOnly_toPlain scope v).imp fun _ he => he.not_isConflict).ofExcept
  lower := bindsFreely_lowerPredicate
  join _ _ := .ok _
  negate _ := .ok _

theorem conflictFree_assemble {q : Query} {l : Lowered String Json}
    (h : (dialect (Except QueryError)).Lowering config q l) :
    ConflictFree (assemble config q l) := by
  obtain ⟨keys, rest, -, -, hrest⟩ := Dialect.exists_divided rfl h
  obtain ⟨us, hus, -, -⟩ := binding.exists_of_restLowered hrest
  have hfree : l.parameters.any (·.name == some keysName) = false := by
    rw [List.any_eq_false]
    intro p hp hname
    obtain ⟨field, n, -, hn⟩ := Binder.name_mem_parametersFrom (hus ▸ hp) (beq_iff_eq.mp hname)
    exact parameterName_ne_keysName field n hn.symm
  have hkeys : ConflictFree (bindKeys l) := by
    unfold bindKeys
    rw [hfree]
    split <;> exact .ok _
  exact hkeys.bind fun _ _ => .ok _

theorem conflictFree_compile (config : CompilerConfig) (q : Query) :
    ConflictFree ((dialect (Except QueryError)).compile config q) :=
  namesFreely.conflictFree_compile fun _ hl => conflictFree_assemble hl

/-! ## The names of a statement -/

/-- The parameters of a statement have these names, each of them one and different from the others;
they are what the text mentions, each of them once. The keys have a name if some are looked up, and
it stands for all of them. -/
structure NamedApart (keys : Option Value) (s : Statement String Json) (names : List String) :
    Prop where
  names_eq : s.parameters.map (·.name) = names.map some
  nodup : names.Nodup
  isBindName : ∀ name ∈ names, isBindName name = true
  mentioned : ∃ ps, placeholders? quotes s.statement = some ps ∧ ps.Perm (names.map ("@" ++ ·))
  keysName_mem_iff : keysName ∈ names ↔ keys ≠ none
  keys_value : s.parameter? keysName = keys.map fun _ => .array s.keyLookup

theorem map_mapIdx {α β γ : Type} (g : β → γ) (f : Nat → α → β) (xs : List α) :
    (xs.mapIdx f).map g = xs.mapIdx fun i x => g (f i x) :=
  List.ext_getElem (by simp) fun i _ _ => by simp

/-- The names of values that are bound from the first ordinal on. -/
def derivedNames (us : List (Named Json)) : List String :=
  us.mapIdx fun i u => parameterName u.name (1 + i)

theorem exists_of_mem_derivedNames {us : List (Named Json)} {name : String}
    (h : name ∈ derivedNames us) : ∃ field n, name = parameterName field n := by
  obtain ⟨i, hi, rfl⟩ := List.mem_mapIdx.mp h
  exact ⟨_, _, rfl⟩

theorem keysName_notMem_derivedNames (us : List (Named Json)) : keysName ∉ derivedNames us := by
  intro h
  obtain ⟨field, n, hn⟩ := exists_of_mem_derivedNames h
  exact parameterName_ne_keysName field n hn.symm

theorem nodup_derivedNames (us : List (Named Json)) : (derivedNames us).Nodup := by
  rw [List.Nodup, List.pairwise_iff_getElem]
  intro i j hi hj hij hname
  simp only [derivedNames, List.getElem_mapIdx] at hname
  have hordinal := eq_of_parameterName_eq hname
  omega

/-- The name of the keys, if some are looked up. -/
def keysNames (byKey : Bool) : List String := if byKey then [keysName] else []

theorem nodup_append_keysNames (us : List (Named Json)) (byKey : Bool) :
    (derivedNames us ++ keysNames byKey).Nodup := by
  cases byKey with
  | false =>
    rw [keysNames, if_neg Bool.false_ne_true, List.append_nil]
    exact nodup_derivedNames us
  | true =>
    refine List.nodup_append.mpr ⟨nodup_derivedNames us, List.nodup_singleton _, ?_⟩
    rintro name hname _ hkeys rfl
    exact keysName_notMem_derivedNames us (List.mem_singleton.mp hkeys ▸ hname)

theorem isBindName_of_mem {us : List (Named Json)} {byKey : Bool} {name : String}
    (h : name ∈ derivedNames us ++ keysNames byKey) : isBindName name = true := by
  rcases List.mem_append.mp h with h | h
  · obtain ⟨field, n, rfl⟩ := exists_of_mem_derivedNames h
    exact isBindName_parameterName field n
  · cases byKey with
    | false => cases h
    | true =>
      obtain rfl := List.mem_singleton.mp h
      rfl

theorem parameter?_keysName {s : Statement String Json} {us : List (Named Json)}
    (h : s.parameters = us.mapIdx (fun i u => ⟨some (parameterName u.name (1 + i)), u.value⟩) ++
      (if s.keyLookup.isEmpty then [] else [⟨some keysName, .array s.keyLookup⟩])) :
    s.parameter? keysName = if s.keyLookup.isEmpty then none else some (.array s.keyLookup) := by
  have hnone : (us.mapIdx fun i u => (⟨some (parameterName u.name (1 + i)), u.value⟩ :
      Parameter Json)).find? (·.name == some keysName) = none := by
    rw [List.find?_eq_none]
    intro p hp hname
    obtain ⟨i, hi, rfl⟩ := List.mem_mapIdx.mp hp
    exact parameterName_ne_keysName _ _ (Option.some.inj (beq_iff_eq.mp hname))
  rw [Statement.parameter?, h, List.find?_append, hnone, Option.none_or]
  cases s.keyLookup.isEmpty <;> simp

theorem namedApart_of_compile {q : Query} {s : Statement String Json}
    (h : (dialect (Except QueryError)).compile config q = .ok s) :
    ∃ keys rest names, Divided config q.condition keys rest ∧ NamedApart keys s names := by
  obtain ⟨keys, rest, us, hdivided, hkeys, -, hparameters, hmentions⟩ := exists_of_compile h
  have hempty : s.keyLookup.isEmpty = true ↔ keys = none :=
    List.isEmpty_iff.trans hkeys.eq_nil_iff
  refine ⟨keys, rest, derivedNames us ++ keysNames (!s.keyLookup.isEmpty), hdivided, ?_,
    nodup_append_keysNames us _, fun name => isBindName_of_mem, ⟨_, hmentions, ?_⟩, ?_, ?_⟩
  · rw [hparameters, derivedNames, List.map_append, map_mapIdx, List.map_append,
      map_mapIdx, keysNames]
    cases s.keyLookup.isEmpty <;> rfl
  · rw [derivedNames, keysNames, List.map_append, map_mapIdx]
    cases s.keyLookup.isEmpty with
    | true => simp
    | false => simpa using @List.perm_append_comm _ ["@" ++ keysName] _
  · rw [List.mem_append, or_iff_right (keysName_notMem_derivedNames us), ne_eq, ← hempty, keysNames]
    cases s.keyLookup.isEmpty <;> simp
  · rw [parameter?_keysName hparameters]
    cases keys with
    | none => rw [hempty.mpr rfl]; rfl
    | some v =>
      have hne : s.keyLookup.isEmpty = false := by
        rw [Bool.eq_false_iff, ne_eq, hempty]
        exact Option.some_ne_none v
      rw [hne]
      rfl

/-- **No query is refused because a name is in use, whatever its fields are. The parameters of a
compiled statement have names that differ, and these are what its text mentions; the keys have a
name exactly if some are looked up, and no field leads to it.** -/
theorem parameters_named_apart (config : CompilerConfig) (q : Query) :
    (∀ name, (dialect (Except QueryError)).compile config q ≠ .error (.bindingConflict name)) ∧
      (∀ s, (dialect (Except QueryError)).compile config q = .ok s →
        ∃ keys rest names, Divided config q.condition keys rest ∧ NamedApart keys s names) ∧
      ∀ field n, parameterName field n ≠ keysName :=
  ⟨fun name h => conflictFree_compile config q _ h ⟨name, rfl⟩, fun _ => namedApart_of_compile,
    parameterName_ne_keysName⟩

/-- A query by key, and by fields that lead to look-alike names. -/
def lookalikes : Query where
  entity := "item"
  condition := some (.join .and [.predicate .equals ⟨"_id", .text "k"⟩,
    .predicate .equals ⟨"a_1", .int 1⟩, .predicate .between ⟨"a", .list [.int 2, .int 3]⟩,
    .predicate .equals ⟨"a-1", .int 4⟩, .predicate .like ⟨"keys", .text "k%"⟩,
    .predicate .oneOf ⟨"1st", .list [.int 5]⟩, .not (.predicate .less ⟨"é", .null⟩)])

theorem lookalikes_named_apart :
    ∃ s keys, (dialect (Except QueryError)).compile {} lookalikes = .ok s ∧
      NamedApart keys s ["a_1_1", "a_2", "a_3", "a_1_4", "keys_5", "p1st_6", "__7", "keys"] := by
  obtain ⟨s, hs⟩ : ∃ s, (dialect (Except QueryError)).compile {} lookalikes = .ok s := ⟨_, rfl⟩
  obtain ⟨keys, rest, names, -, h⟩ := (parameters_named_apart {} lookalikes).2.1 s hs
  have hnames : names.map some =
      ["a_1_1", "a_2", "a_3", "a_1_4", "keys_5", "p1st_6", "__7", "keys"].map some := by
    rw [← h.names_eq, ← Except.ok.inj hs]
    rfl
  exact ⟨s, keys, hs, List.map_injective_iff.mpr (Option.some_injective _) hnames ▸ h⟩

end PortableQuery.Aql
