import PortableQuery.Proofs.Document.Encoding

set_option autoImplicit false

/-!
# Values that documents can hold

A value has a document form unless it holds a user-defined value, a key that starts with `$` or a
key that comes twice, at whatever depth. Every error is one of conversion and names the entity.
-/

namespace PortableQuery.Document

/-- The value is no user-defined one, and no map with a reserved or a repeated key. -/
def Storable : Value → Prop
  | .map entries => (∀ e ∈ entries, isDollar e.name = false) ∧ (Named.names entries).Nodup
  | .udt _ _ => False
  | _ => True

/-- A document form of an entry: the form of its value under its key. -/
def EntryForm (scope : Scope) (e : Named Value) (m : Named Json) : Prop :=
  m.name = e.name ∧ encode (scope.nested e.name) e.value = .ok m.value

variable {scope : Scope}

theorem encodeEntries_cons_eq_ok {seen : List String} {e : Named Value} {es : List (Named Value)}
    {ms : List (Named Json)} : encodeEntries scope seen (e :: es) = .ok ms ↔
      isDollar e.name = false ∧ e.name ∉ seen ∧
        ∃ m ns, EntryForm scope e m ∧ encodeEntries scope (e.name :: seen) es = .ok ns ∧
          ms = m :: ns := by
  rw [encodeEntries]
  by_cases hdollar : isDollar e.name = true
  · rw [if_pos hdollar]
    exact iff_of_false (fun h => by cases h) fun h => by simp [hdollar] at h
  rw [if_neg hdollar, bind_eq_ok]
  by_cases hseen : e.name ∈ seen
  · refine iff_of_false ?_ fun h => h.2.1 hseen
    rintro ⟨j, -, h⟩
    rw [if_pos hseen] at h
    cases h
  simp only [hdollar, hseen, not_false_eq_true, true_and]
  constructor
  · rintro ⟨j, hj, h⟩
    obtain ⟨ns, hns, h⟩ := bind_eq_ok.mp h
    exact ⟨⟨e.name, j⟩, ns, ⟨rfl, hj⟩, hns, (pure_eq_ok.mp h).symm⟩
  · rintro ⟨⟨name, j⟩, ns, ⟨rfl, hj⟩, hns, rfl⟩
    exact ⟨j, hj, bind_eq_ok.mpr ⟨ns, hns, rfl⟩⟩

/-- **Entries have a form if no key is reserved or repeated and every value has a form.** -/
theorem encodeEntries_eq_ok {seen : List String} {es : List (Named Value)}
    {ms : List (Named Json)} : encodeEntries scope seen es = .ok ms ↔
      (∀ e ∈ es, isDollar e.name = false) ∧ (Named.names es).Nodup ∧ (∀ e ∈ es, e.name ∉ seen) ∧
        List.Forall₂ (EntryForm scope) es ms := by
  induction es generalizing seen ms with
  | nil =>
    rw [List.forall₂_nil_left_iff]
    constructor
    · intro h
      cases h
      exact ⟨List.forall_mem_nil _, .nil, List.forall_mem_nil _, rfl⟩
    · rintro ⟨-, -, -, rfl⟩
      rfl
  | cons e es ih =>
    rw [encodeEntries_cons_eq_ok, List.forall₂_cons_left_iff, List.forall_mem_cons,
      ← and_assoc (a := (Named.names _).Nodup), Named.nodup_and_unseen_cons]
    constructor
    · rintro ⟨hdollar, hseen, m, ns, hm, hns, rfl⟩
      obtain ⟨hdollars, hnodup, hfresh, hforms⟩ := ih.mp hns
      exact ⟨⟨hdollar, hdollars⟩, ⟨hseen, hnodup, hfresh⟩, m, ns, hm, hforms, rfl⟩
    · rintro ⟨⟨hdollar, hdollars⟩, ⟨hseen, hnodup, hfresh⟩, m, ns, hm, hforms, rfl⟩
      exact ⟨hdollar, hseen, m, ns, hm, ih.mpr ⟨hdollars, hnodup, hfresh, hforms⟩, rfl⟩

/-! ## Which values have a form -/

theorem exists_encodeItems_iff {vs : List Value} :
    (∃ js, encodeItems scope vs = .ok js) ↔ ∀ v ∈ vs, ∃ j, encode scope v = .ok j := by
  simp only [encodeItems_eq_ok, exists_forall₂_iff]

theorem exists_encodeEntries_iff {es : List (Named Value)} :
    (∃ ms, encodeEntries scope [] es = .ok ms) ↔ Storable (.map es) ∧
      ∀ e ∈ es, ∃ j, encode (scope.nested e.name) e.value = .ok j := by
  have hform (e : Named Value) :
      (∃ m, EntryForm scope e m) ↔ ∃ j, encode (scope.nested e.name) e.value = .ok j :=
    ⟨fun ⟨m, hm⟩ => ⟨m.value, hm.2⟩, fun ⟨j, hj⟩ => ⟨⟨e.name, j⟩, rfl, hj⟩⟩
  simp only [encodeEntries_eq_ok, exists_and_left, exists_forall₂_iff, hform, Storable,
    List.not_mem_nil, not_false_eq_true, implies_true, true_and, and_assoc]

/-- **The values that have a document form.** -/
theorem exists_encode_iff (scope : Scope) (v : Value) :
    (∃ j, encode scope v = .ok j) ↔ v.Everywhere Storable := by
  induction v using Value.induct generalizing scope with
  | scalar v hv =>
    rw [Value.everywhere_of_isScalar hv]
    refine iff_of_true ?_ ?_
    · cases v with
      | list | map | udt => cases hv
      | _ => exact ⟨_, rfl⟩
    · cases v with
      | list | map | udt => cases hv
      | _ => trivial
  | list items ih =>
    have hlist : (∃ j, encode scope (.list items) = .ok j) ↔
        ∃ js, encodeItems scope items = .ok js := by
      simp only [encode, bind_eq_ok, pure_eq_ok]
      exact ⟨fun ⟨_, js, hjs, _⟩ => ⟨js, hjs⟩, fun ⟨js, hjs⟩ => ⟨_, js, hjs, rfl⟩⟩
    rw [Value.everywhere_list, hlist, exists_encodeItems_iff]
    exact ⟨fun h => ⟨trivial, fun v hv => (ih v hv scope).mp (h v hv)⟩,
      fun h v hv => (ih v hv scope).mpr (h.2 v hv)⟩
  | map entries ih =>
    have hmap : (∃ j, encode scope (.map entries) = .ok j) ↔
        ∃ ms, encodeEntries scope [] entries = .ok ms := by
      simp only [encode, bind_eq_ok, pure_eq_ok]
      exact ⟨fun ⟨_, ms, hms, _⟩ => ⟨ms, hms⟩, fun ⟨ms, hms⟩ => ⟨_, ms, hms, rfl⟩⟩
    rw [Value.everywhere_map, hmap, exists_encodeEntries_iff]
    exact and_congr_right fun _ => forall₂_congr fun e he => ih e he _
  | udt type fields =>
    rw [Value.everywhere_udt]
    exact iff_of_false nofun fun h => h.1

/-! ## Errors -/

theorem encodeItems_eq_error {vs : List Value} {e : QueryError}
    (h : encodeItems scope vs = .error e) : ∃ v ∈ vs, encode scope v = .error e := by
  induction vs with
  | nil => cases h
  | cons v vs ih =>
    rcases bind_eq_error.mp h with h | ⟨j, -, h⟩
    · exact ⟨v, List.mem_cons_self, h⟩
    · rcases bind_eq_error.mp h with h | ⟨js, -, h⟩
      · obtain ⟨w, hw, h⟩ := ih h
        exact ⟨w, List.mem_cons_of_mem _ hw, h⟩
      · cases h

theorem encodeEntries_eq_error {seen : List String} {es : List (Named Value)} {e : QueryError}
    (h : encodeEntries scope seen es = .error e) :
    (∃ fault, e = scope.error fault) ∨
      ∃ x ∈ es, encode (scope.nested x.name) x.value = .error e := by
  induction es generalizing seen with
  | nil => cases h
  | cons x es ih =>
    rw [encodeEntries] at h
    split at h
    · cases h
      exact .inl ⟨_, rfl⟩
    rcases bind_eq_error.mp h with h | ⟨j, -, h⟩
    · exact .inr ⟨x, List.mem_cons_self, h⟩
    split at h
    · cases h
      exact .inl ⟨_, rfl⟩
    rcases bind_eq_error.mp h with h | ⟨ms, -, h⟩
    · refine (ih h).imp_right ?_
      rintro ⟨w, hw, h⟩
      exact ⟨w, List.mem_cons_of_mem _ hw, h⟩
    · cases h

/-- **Every error is one of conversion, at some field of the entity.** -/
theorem encode_eq_error {scope : Scope} {v : Value} {e : QueryError}
    (h : encode scope v = .error e) : ∃ field fault, e = .conversion scope.entity field fault := by
  induction v using Value.induct generalizing scope with
  | scalar v hv =>
    cases v with
    | list | map | udt => cases hv
    | _ => cases h
  | list items ih =>
    rcases bind_eq_error.mp h with h | ⟨js, -, h⟩
    · obtain ⟨v, hv, h⟩ := encodeItems_eq_error h
      exact ih v hv h
    · cases h
  | map entries ih =>
    rcases bind_eq_error.mp h with h | ⟨ms, -, h⟩
    · rcases encodeEntries_eq_error h with ⟨fault, rfl⟩ | ⟨x, hx, h⟩
      · exact ⟨scope.field, fault, rfl⟩
      · have hconversion := ih x hx h
        exact hconversion
    · cases h
  | udt type fields =>
    cases h
    exact ⟨scope.field, .documentUdt type, rfl⟩

end PortableQuery.Document
