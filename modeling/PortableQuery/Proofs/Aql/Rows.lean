import Mathlib.Data.List.Perm.Basic
import PortableQuery.Proofs.Aql.Selection

set_option autoImplicit false

/-!
# Rows of AQL statements

How often a loop returns a document. A loop over a collection comes to each of its documents once. A
loop over the documents of keys comes to a document once for each element of the list that names it,
so a key that is listed twice returns its document twice.
-/

namespace PortableQuery

/-- The truth of a formula, given that of its atoms. -/
def Formula.eval {α : Type} (p : α → Bool) : Formula α → Bool :=
  fold p (fun c bs => match c with | .and => bs.all id | .or => bs.any id) (!·)

theorem Formula.eval_iff {α : Type} {p : α → Bool} (f : Formula α) :
    f.eval p = true ↔ f.Holds (p · = true) := by
  induction f using Formula.induct with
  | atom a => rfl
  | join c fs ih =>
    rw [eval, fold_join]
    cases c with
    | and =>
      rw [holds_and, List.all_map, List.all_eq_true]
      exact forall₂_congr ih
    | or =>
      rw [holds_or, List.any_map, List.any_eq_true]
      exact exists_congr fun f => and_congr_right (ih f)
  | not f ih =>
    rw [eval, fold_not, ← eval, Bool.not_eq_true', holds_not, ← ih, Bool.not_eq_true]

namespace Aql

/-! ## Documents of a loop -/

section Relation

variable (r : Operator → Json → Json → Bool)

/-- The value of an attribute compares with another, with one of several, or with two bounds. -/
def compares (x : Json) : Operator → Json → Bool
  | .oneOf, .array items => items.any (r .equals x)
  | .between, .array [lower, upper] => r .greaterOrEqual x lower && r .lessOrEqual x upper
  | o, j => r o x j

/-- A comparison holds of the document; one without a value holds of none. -/
def Doc.satisfies (d : Doc) (a : Comparison (Option Json)) : Bool :=
  a.value.any (compares r (d.attributes a.field) a.operator)

/-- The key is that of the document. -/
def Doc.hasKey (d : Doc) (key : Json) : Bool := r .equals (d.attributes keyAttribute) key

/-- The documents of a store. No key is that of two documents of one collection. -/
structure Contents where
  docs : List Doc
  unique : docs.Pairwise fun d d' => d.collection = d'.collection →
    ∀ key, d.hasKey r key = true → d'.hasKey r key = false

/-- The document of a key in a collection, if there is one. -/
def document? (docs : List Doc) (collection : String) (key : Json) : Option Doc :=
  docs.find? fun d => d.collection == collection && d.hasKey r key

/-- The documents that a loop comes to: all of its collection, or one for each element of its keys
that is the key of a document. -/
def Loop.source (docs : List Doc) (l : Loop (Option Json)) : List Doc :=
  match l.keys with
  | none => docs.filter (·.collection == l.collection)
  | some (some (.array keys)) => keys.filterMap (document? r docs l.collection)
  | some _ => []

/-- The filter of a loop holds of the document. -/
def Loop.passes (l : Loop (Option Json)) (d : Doc) : Bool :=
  l.condition.all fun g => g.eval (d.satisfies r)

/-- The documents that a loop returns. -/
def Loop.found (docs : List Doc) (l : Loop (Option Json)) : List Doc :=
  (l.source r docs).filter (l.passes r)

end Relation

variable {r : Operator → Json → Json → Bool}

theorem compares_iff {x : Json} {o : Operator} {j : Json} :
    compares r x o j = true ↔ Compares (fun o x y => r o x y = true) x o j := by
  unfold compares Compares
  split <;> simp

theorem Doc.satisfies_iff {d : Doc} {a : Comparison (Option Json)} :
    d.satisfies r a = true ↔ d.Satisfies (fun o x y => r o x y = true) a := by
  simp [satisfies, Satisfies, Option.any_eq_true, compares_iff]

theorem Loop.passes_iff {l : Loop (Option Json)} {d : Doc} : l.passes r d = true ↔
    ∀ g ∈ l.condition, g.Holds (d.Satisfies fun o x y => r o x y = true) := by
  rw [passes, Option.all_eq_true]
  refine forall₂_congr fun g _ => ?_
  rw [Formula.eval_iff]
  exact Formula.holds_congr (fun _ => Doc.satisfies_iff) g

/-! ## How often a loop comes to a document -/

variable {docs : List Doc} {l : Loop (Option Json)} {selected : Doc → Bool}

/-- **A loop over a collection comes to each of the documents that it selects once.** -/
theorem found_of_all (hkeys : l.keys = none)
    (hselected : ∀ d, selected d = true ↔ l.Selects (fun o x y => r o x y = true) d) :
    l.found r docs = docs.filter selected := by
  rw [Loop.found, Loop.source, hkeys, List.filter_filter]
  refine List.filter_congr fun d _ => ?_
  rw [Bool.eq_iff_iff, Bool.and_eq_true, Loop.passes_iff, hselected, Loop.Selects, hkeys,
    beq_iff_eq]
  simp [and_comm]

/-- Going through a list for every key comes to an element once for each of the keys that it has. -/
theorem perm_replicate {α β : Type} (has : α → β → Bool) (as : List α) (keys : List β) :
    (keys.flatMap fun k => as.filter (has · k)).Perm
      (as.flatMap fun a => List.replicate (keys.countP (has a)) a) := by
  have hreplicate (a : α) : (keys.flatMap fun k => if has a k then [a] else []) =
      List.replicate (keys.countP (has a)) a := by
    induction keys with
    | nil => rfl
    | cons k ks ih =>
      rw [List.flatMap_cons, ih, List.countP_cons]
      cases has a k with
      | true => exact List.replicate_succ.symm
      | false => rfl
  induction as with
  | nil => simp
  | cons a as ih =>
    have hcons (k : β) : (a :: as).filter (has · k) =
        (if has a k then [a] else []) ++ as.filter (has · k) := by
      rw [List.filter_cons]
      split <;> rfl
    rw [List.flatMap_cons, ← hreplicate]
    simp only [hcons]
    exact (List.flatMap_append_perm keys _ _).symm.trans (ih.append_left _)

theorem filter_eq_toList_find? {α : Type} {p : α → Bool} {as : List α}
    (h : as.Pairwise fun a a' => p a = true → p a' = false) :
    as.filter p = (as.find? p).toList := by
  induction as with
  | nil => rfl
  | cons a as ih =>
    rw [List.pairwise_cons] at h
    cases ha : p a with
    | true =>
      have hrest : as.filter p = [] :=
        List.filter_eq_nil_iff.mpr fun a' ha' => Bool.eq_false_iff.mp (h.1 a' ha' ha)
      rw [List.filter_cons_of_pos ha, hrest, List.find?_cons_of_pos ha]
      rfl
    | false =>
      have hneg : ¬ p a = true := Bool.eq_false_iff.mp ha
      rw [List.filter_cons_of_neg hneg, List.find?_cons_of_neg hneg, ih h.2]

theorem toList_document? (contents : Contents r) (collection : String) (key : Json) :
    (document? r contents.docs collection key).toList =
      contents.docs.filter fun d => d.collection == collection && d.hasKey r key := by
  refine (filter_eq_toList_find? (contents.unique.imp fun {d d'} hunique hd => ?_)).symm
  rw [Bool.and_eq_true, beq_iff_eq] at hd
  rw [Bool.and_eq_false_iff, beq_eq_false_iff_ne]
  by_cases hcollection : d'.collection = collection
  · exact .inr (hunique (hd.1.trans hcollection.symm) key hd.2)
  · exact .inl hcollection

theorem selects_iff {keys : List Json} (hkeys : l.keys = some (some (.array keys))) {d : Doc} :
    l.Selects (fun o x y => r o x y = true) d ↔ d.collection = l.collection ∧
      (∃ key ∈ keys, d.hasKey r key = true) ∧
      ∀ g ∈ l.condition, g.Holds (d.Satisfies fun o x y => r o x y = true) := by
  simp [Loop.Selects, hkeys, Doc.Satisfies, Compares, Doc.hasKey]

/-- **A loop over the documents of keys comes to each of the documents that it selects once for each
element of its keys that is the key of the document.** -/
theorem found_of_keys (contents : Contents r) {keys : List Json}
    (hkeys : l.keys = some (some (.array keys)))
    (hselected : ∀ d, selected d = true ↔ l.Selects (fun o x y => r o x y = true) d) :
    (l.found r contents.docs).Perm
      ((contents.docs.filter selected).flatMap fun d =>
        List.replicate (keys.countP (d.hasKey r)) d) := by
  have hfound : l.found r contents.docs = keys.flatMap fun key =>
      (contents.docs.filter selected).filter (·.hasKey r key) := by
    rw [Loop.found, Loop.source, hkeys]
    dsimp only
    rw [List.filterMap_eq_flatMap_toList, List.filter_flatMap]
    refine List.flatMap_congr fun key hkey => ?_
    rw [toList_document?, List.filter_filter, List.filter_filter]
    refine List.filter_congr fun d _ => ?_
    rw [Bool.eq_iff_iff, Bool.and_eq_true, Bool.and_eq_true, Bool.and_eq_true, Loop.passes_iff,
      hselected, selects_iff hkeys, beq_iff_eq]
    constructor
    · rintro ⟨hpasses, hcollection, hd⟩
      exact ⟨hd, hcollection, ⟨key, hkey, hd⟩, hpasses⟩
    · rintro ⟨hd, hcollection, -, hpasses⟩
      exact ⟨hpasses, hcollection, hd⟩
  rw [hfound]
  exact perm_replicate _ _ _

/-! ## Rows of statements -/

/-- The document as it is returned: with all of its attributes, or with those that are kept. -/
def Doc.row (keep : List String) (d : Doc) : String → Json :=
  fun a => if keep.isEmpty || keep.contains a then d.attributes a else .null

/-- The rows of a loop without a window, in any order. -/
def Loop.rows? (r : Operator → Json → Json → Bool) (docs : List Doc) (l : Loop (Option Json)) :
    Option (List (String → Json)) :=
  if l.skip = 0 ∧ l.limit = 0 then some ((l.found r docs).map (Doc.row l.keep)) else none

/-- The rows of a statement without a window, in any order. -/
def rows? (r : Operator → Json → Json → Bool) (docs : List Doc) (s : Statement String Json) :
    Option (List (String → Json)) :=
  (parse? s.statement).bind fun l => (l.map (language.value? s.parameters)).rows? r docs

/-- The document is one of the query's collection, and the condition holds of it. -/
def Doc.meets (r : Operator → Json → Json → Bool) (config : CompilerConfig) (q : Query) (d : Doc) :
    Bool :=
  d.collection == q.entity &&
    q.condition.all fun c => c.formula.eval fun a => d.satisfies r (plainComparison config a)

/-- The document as a query asks for it. -/
def Doc.rowOf (config : CompilerConfig) (q : Query) (d : Doc) : String → Json :=
  d.row (q.projection.map (attributeName config))

/-- How often a statement comes to a document: once, or once for each of its keys that is the key of
the document. -/
def visits (r : Operator → Json → Json → Bool) (s : Statement String Json) (d : Doc) : Nat :=
  if s.keyLookup.isEmpty then 1 else s.keyLookup.countP (d.hasKey r)

variable {config : CompilerConfig} {q : Query} {s : Statement String Json}

/-- A compiled statement is a loop that selects the documents that the condition holds of. -/
theorem exists_loop (h : (dialect (Except QueryError)).compile config q = .ok s) :
    ∃ l, (parse? s.statement).map (·.map (language.value? s.parameters)) = some l ∧
      l.skip = q.skip.toNat ∧ l.limit = windowLimit q.skip q.limit ∧
      l.keep = q.projection.map (attributeName config) ∧
      l.keys = (if s.keyLookup.isEmpty then none else some (some (.array s.keyLookup))) ∧
      ∀ R d, l.Selects R d ↔ d.collection = q.entity ∧
        ∀ c ∈ q.condition, c.formula.Holds fun a => d.Satisfies R (plainComparison config a) := by
  obtain ⟨lowered, hl, hs⟩ := Dialect.exists_lowering_of_compile h
  obtain ⟨_, rest, -, -, hrest⟩ := Dialect.exists_divided rfl hl
  obtain ⟨bound, hbind, hfinish⟩ := bind_eq_ok.mp hs
  obtain ⟨-, hlookup, -, hlook⟩ := bindKeys_eq_ok hbind
  obtain ⟨g, hg, -⟩ := exists_condition hrest hbind
  obtain ⟨hparameters, hparse⟩ := parse_assemble hbind hs hg
  have hkeys : s.keyLookup = bound.keyLookup := by rw [← pure_eq_ok.mp hfinish, Lowered.finish]
  refine ⟨_, by rw [hparse, Option.map_some], rfl, rfl, rfl, ?_, fun R d => ?_⟩
  · rw [hkeys, hparameters]
    cases hempty : bound.keyLookup with
    | nil => rfl
    | cons key keys =>
      have hvalue := hlook (by simp [← hlookup, hempty])
      rw [← hlookup, hempty] at hvalue
      exact congrArg some hvalue
  · have hselects : Selects R s d ↔ _ := (selection R).selects_iff_holds rfl h d
    rw [Selects, hparse] at hselects
    simp only [Option.some.injEq, exists_eq_left'] at hselects
    exact hselects

theorem Doc.meets_iff {d : Doc} : d.meets r config q = true ↔ d.collection = q.entity ∧
    ∀ c ∈ q.condition, c.formula.Holds fun a =>
      d.Satisfies (fun o x y => r o x y = true) (plainComparison config a) := by
  rw [meets, Bool.and_eq_true, beq_iff_eq, Option.all_eq_true]
  simp only [Formula.eval_iff, Doc.satisfies_iff]
  rfl

/-- **A compiled statement without a window returns the documents that meet its query, each as often
as the statement comes to it.** -/
theorem exists_rows (contents : Contents r) (hskip : q.skip = 0) (hlimit : q.limit = 0)
    (h : (dialect (Except QueryError)).compile config q = .ok s) :
    ∃ rows, rows? r contents.docs s = some rows ∧
      rows.Perm ((contents.docs.filter (Doc.meets r config q)).flatMap fun d =>
        List.replicate (visits r s d) (d.rowOf config q)) := by
  obtain ⟨l', hl', hloopSkip, hloopLimit, hkeep, hkeys, hselects⟩ := exists_loop h
  have hmeets (d : Doc) : d.meets r config q = true ↔ l'.Selects (fun o x y => r o x y = true) d :=
    Doc.meets_iff.trans (hselects _ d).symm
  have hfound : (l'.found r contents.docs).Perm
      ((contents.docs.filter (Doc.meets r config q)).flatMap fun d =>
        List.replicate (visits r s d) d) := by
    unfold visits
    cases hempty : s.keyLookup.isEmpty with
    | true =>
      rw [hempty] at hkeys
      rw [found_of_all hkeys hmeets]
      simp
    | false =>
      rw [hempty] at hkeys
      exact found_of_keys contents hkeys hmeets
  have hnoWindow : l'.skip = 0 ∧ l'.limit = 0 := by
    rw [hloopSkip, hloopLimit, hskip, hlimit]
    exact ⟨rfl, rfl⟩
  refine ⟨(l'.found r contents.docs).map (Doc.rowOf config q), ?_, ?_⟩
  · obtain ⟨l, hl, rfl⟩ := Option.map_eq_some_iff.mp hl'
    rw [rows?, hl, Option.bind_some, Loop.rows?, if_pos hnoWindow, hkeep]
    rfl
  · have hrows := hfound.map (Doc.rowOf config q)
    rw [List.map_flatMap] at hrows
    simpa only [List.map_replicate] using hrows

theorem perm_map_iff {α β : Type} {times : α → Nat} (f : α → β) {as : List α}
    (h : ∀ a ∈ as, 1 ≤ times a) :
    (as.flatMap fun a => List.replicate (times a) (f a)).Perm (as.map f) ↔
      ∀ a ∈ as, times a ≤ 1 := by
  have hlength {as : List α} (h : ∀ a ∈ as, 1 ≤ times a) :
      as.length ≤ (as.flatMap fun a => List.replicate (times a) (f a)).length := by
    induction as with
    | nil => exact Nat.zero_le _
    | cons a as ih =>
      rw [List.forall_mem_cons] at h
      have hrest := ih h.2
      rw [List.flatMap_cons, List.length_append, List.length_replicate, List.length_cons]
      omega
  constructor
  · intro hperm
    have hequal := hperm.length_eq
    clear hperm
    induction as with
    | nil => exact List.forall_mem_nil _
    | cons a as ih =>
      rw [List.forall_mem_cons] at h
      have hrest := hlength h.2
      rw [List.flatMap_cons, List.length_append, List.length_replicate, List.map_cons,
        List.length_cons, List.length_map] at hequal
      refine List.forall_mem_cons.mpr ⟨by omega, ih h.2 ?_⟩
      rw [List.length_map]
      omega
  · intro hone
    have htimes (a : α) (ha : a ∈ as) : times a = 1 := Nat.le_antisymm (hone a ha) (h a ha)
    rw [List.map_eq_flatMap]
    exact .of_eq (List.flatMap_congr fun a ha => by rw [htimes a ha]; rfl)

theorem one_le_visits (h : (dialect (Except QueryError)).compile config q = .ok s) {d : Doc}
    (hd : d.meets r config q = true) : 1 ≤ visits r s d := by
  have hfetched := ((selection fun o x y => r o x y = true).holds_iff_fetched rfl h d).mp
    (Doc.meets_iff.mp hd).2
  unfold visits
  split
  · exact Nat.le_refl 1
  · next hempty =>
    obtain hnil | ⟨key, hkey, hhas⟩ := hfetched.1
    · exact absurd (List.isEmpty_iff.mpr hnil) hempty
    · exact List.countP_pos_iff.mpr ⟨key, hkey, hhas⟩

theorem visits_le_one_iff {d : Doc} :
    visits r s d ≤ 1 ↔ s.keyLookup.countP (d.hasKey r) ≤ 1 := by
  unfold visits
  split
  · next hempty =>
    rw [List.isEmpty_iff.mp hempty]
    exact iff_of_true (Nat.le_refl 1) (Nat.zero_le 1)
  · rfl

theorem keyLookup_eq_nil (hlookup : config.pointLookup = false)
    (h : (dialect (Except QueryError)).compile config q = .ok s) : s.keyLookup = [] := by
  obtain ⟨l, hl, hs⟩ := Dialect.exists_lowering_of_compile h
  obtain ⟨hkeys, -⟩ := selects_assemble (R := fun _ _ _ => True) hl hs
  rw [hkeys]
  cases hl with
  | empty _ => rfl
  | whole _ _ _ => rfl
  | split _ hsplit _ _ =>
    rw [Dialect.keySplit?, hlookup, Bool.and_false] at hsplit
    cases hsplit

/-- **Without key lookups a statement returns each of the documents that meet its query once. With
key lookups it returns each as often as its keys name it, and so the same rows if and only if no two
of the keys are that of one such document.** -/
theorem rows_of_lookup (contents : Contents r) (hskip : q.skip = 0) (hlimit : q.limit = 0)
    {s s' : Statement String Json}
    (h : (dialect (Except QueryError)).compile { config with pointLookup := true } q = .ok s)
    (h' : (dialect (Except QueryError)).compile { config with pointLookup := false } q = .ok s') :
    ∃ rows rows', rows? r contents.docs s = some rows ∧ rows? r contents.docs s' = some rows' ∧
      rows'.Perm ((contents.docs.filter (Doc.meets r config q)).map (Doc.rowOf config q)) ∧
      rows.Perm ((contents.docs.filter (Doc.meets r config q)).flatMap fun d =>
        List.replicate (visits r s d) (d.rowOf config q)) ∧
      (rows.Perm rows' ↔ ∀ d ∈ contents.docs, d.meets r config q = true →
        s.keyLookup.countP (d.hasKey r) ≤ 1) := by
  obtain ⟨rows, hrows, hperm⟩ := exists_rows contents hskip hlimit h
  obtain ⟨rows', hrows', hperm'⟩ := exists_rows contents hskip hlimit h'
  have honce : rows'.Perm
      ((contents.docs.filter (Doc.meets r config q)).map (Doc.rowOf config q)) := by
    have hnil : s'.keyLookup = [] := keyLookup_eq_nil rfl h'
    have hvisits (d : Doc) : visits r s' d = 1 := by
      rw [visits, hnil]
      rfl
    simp only [hvisits, List.replicate_one, ← List.map_eq_flatMap] at hperm'
    exact hperm'
  refine ⟨rows, rows', hrows, hrows', honce, hperm, ?_⟩
  have hvisits : ∀ d ∈ contents.docs.filter (Doc.meets r config q), 1 ≤ visits r s d :=
    fun d hd => one_le_visits h (List.mem_filter.mp hd).2
  rw [hperm.congr_left, honce.congr_right]
  refine (perm_map_iff (Doc.rowOf config q) hvisits).trans (List.forall_mem_filter.trans ?_)
  exact forall₂_congr fun d _ => imp_congr_right fun _ => visits_le_one_iff

/-- Texts compare as equal if they are the same; nothing else compares. -/
def sameText (o : Operator) (x y : Json) : Bool :=
  o == .equals && x.string?.isSome && x.string? == y.string?

/-- A person of a kind. -/
def person (key kind : String) : Doc where
  collection := "Person"
  attributes a :=
    if a = "_key" then .string key else if a = "kind" then .string kind else .null

theorem hasKey_person {key kind : String} {j : Json} :
    (person key kind).hasKey sameText j = true ↔ some key = j.string? := by
  have hkey : (person key kind).attributes keyAttribute = .string key := rfl
  rw [Doc.hasKey, hkey, sameText]
  simp [Json.string?]

/-- Two persons. -/
def persons : Contents sameText where
  docs := [person "k1" "a", person "k2" "b"]
  unique := by
    refine List.pairwise_pair.mpr fun _ key hkey => Bool.eq_false_iff.mpr fun hother => ?_
    rw [hasKey_person] at hkey hother
    exact absurd (hkey.trans hother.symm) (by decide)

/-- A query for several keys, one of which is that of no document. -/
def keysOnce : Query where
  entity := "Person"
  condition := some (.join .and [
    .predicate .oneOf ⟨"_id", .list [.text "k2", .text "k1", .text "k3"]⟩,
    .not (.predicate .equals ⟨"kind", .text "b"⟩)])
  projection := ["kind"]

theorem rows_of_lookup_keysOnce :
    ∃ s s' rows rows',
      (dialect (Except QueryError)).compile { pointLookup := true } keysOnce = .ok s ∧
      (dialect (Except QueryError)).compile { pointLookup := false } keysOnce = .ok s' ∧
      rows? sameText persons.docs s = some rows ∧ rows? sameText persons.docs s' = some rows' ∧
      rows.Perm rows' := by
  obtain ⟨s, hs, hlookup⟩ : ∃ s, (dialect (Except QueryError)).compile { pointLookup := true }
      keysOnce = .ok s ∧ s.keyLookup = [.string "k2", .string "k1", .string "k3"] := ⟨_, rfl, rfl⟩
  obtain ⟨s', hs'⟩ : ∃ s', (dialect (Except QueryError)).compile { pointLookup := false }
      keysOnce = .ok s' := ⟨_, rfl⟩
  obtain ⟨rows, rows', hrows, hrows', -, -, hsame⟩ :=
    @rows_of_lookup sameText {} keysOnce persons rfl rfl s s' hs hs'
  refine ⟨s, s', rows, rows', hs, hs', hrows, hrows', hsame.mpr ?_⟩
  rw [hlookup]
  decide

/-- **A key that is listed twice fetches its document twice.** -/
theorem key_fetched_twice :
    ∃ s s' rows rows',
      (dialect (Except QueryError)).compile { pointLookup := true }
        { entity := "Person", condition := some (.predicate .oneOf
          ⟨"_id", .list [.text "k1", .text "k1"]⟩) } = .ok s ∧
      (dialect (Except QueryError)).compile { pointLookup := false }
        { entity := "Person", condition := some (.predicate .oneOf
          ⟨"_id", .list [.text "k1", .text "k1"]⟩) } = .ok s' ∧
      rows? sameText persons.docs s = some rows ∧ rows? sameText persons.docs s' = some rows' ∧
      rows.length = 2 ∧ rows'.length = 1 ∧ ¬ rows.Perm rows' :=
  ⟨_, _, _, _, rfl, rfl, rfl, rfl, rfl, rfl, fun h => absurd h.length_eq (by decide)⟩

end Aql

end PortableQuery
