import PortableQuery.Proofs.Cql.Lossless

set_option autoImplicit false

/-!
# Which values a schema converts to CQL

A value is converted exactly if every user-defined value in it has a type that the schema declares
for the entity, and if the fields of such a value are declared there and fit what is declared. What
comes out has the declared types, field by field.
-/

namespace PortableQuery.Cql

/-! ## Values -/

/-- The value fits the declared type: null fits every type, a list or map fits item by item. What
the fields of a user-defined value hold is not asked here. -/
inductive Fits : FieldType → Value → Prop
  | null (declared : FieldType) : Fits declared .null
  | int {i : Int64} (lower : -2 ^ 31 ≤ i.toInt) (upper : i.toInt < 2 ^ 31) : Fits .int (.int i)
  | bigint (i : Int64) : Fits .bigint (.int i)
  | double (d : Double) : Fits .double (.double d)
  | decimal (d : Decimal) : Fits .decimal (.decimal d)
  | text (s : String) : Fits .text (.text s)
  | boolean (b : Bool) : Fits .boolean (.bool b)
  | blob (bytes : List UInt8) : Fits .blob (.bytes bytes)
  | uuid (u : Uuid) : Fits .uuid (.uuid u)
  | timestamp (t : Timestamp) : Fits .timestamp (.timestamp t)
  | date (d : Date) : Fits .date (.date d)
  | list {element : FieldType} {items : List Value} (h : ∀ v ∈ items, Fits element v) :
    Fits (.list element) (.list items)
  | map {value : FieldType} {entries : List (Named Value)} (h : ∀ e ∈ entries, Fits value e.value) :
    Fits (.map value) (.map entries)
  | udt (name : String) (fields : List (Named Value)) : Fits (.udt name) (.udt name fields)

theorem fits_list_iff {element : FieldType} {items : List Value} :
    Fits (.list element) (.list items) ↔ ∀ v ∈ items, Fits element v := by
  constructor
  · rintro ⟨⟩
    assumption
  · exact .list

theorem fits_map_iff {value : FieldType} {entries : List (Named Value)} :
    Fits (.map value) (.map entries) ↔ ∀ e ∈ entries, Fits value e.value := by
  constructor
  · rintro ⟨⟩
    assumption
  · exact .map

/-- The type of a user-defined value is declared for the entity, and so are its fields, which fit
what is declared. -/
def Declared (types? : Option (String → String → Option UserType)) (entity : String) :
    Value → Prop
  | .udt type fields => ∃ types t, types? = some types ∧ types entity type = some t ∧
      ∀ f ∈ fields, ∃ declared, t.fieldType? f.name = some declared ∧ Fits declared f.value
  | _ => True

theorem declared_of_isScalar {types? : Option (String → String → Option UserType)} {entity : String}
    {v : Value} (hv : v.isScalar = true) : v.Everywhere (Declared types? entity) := by
  rw [Value.everywhere_of_isScalar hv]
  cases v with
  | list | map | udt => cases hv
  | _ => trivial

/-! ## What is converted -/

section Succeeding

variable {ε α β γ : Type} {x : Except ε α}

theorem exists_bind_pure_iff {g : α → β} :
    (∃ b, (do
      let a ← x
      pure (g a)) = Except.ok (ε := ε) b) ↔ ∃ a, x = .ok a := by
  rw [bind_pure_comp]
  exact exists_map_eq_ok

theorem exists_bind_iff {f : α → Except ε β} :
    (∃ b, (x >>= f) = .ok b) ↔ ∃ a, x = .ok a ∧ ∃ b, f a = .ok b := by
  simp only [bind_eq_ok]
  constructor
  · rintro ⟨b, a, hx, hb⟩
    exact ⟨a, hx, b, hb⟩
  · rintro ⟨a, hx, b, hb⟩
    exact ⟨b, a, hx, hb⟩

theorem exists_mapM_iff {f : α → Except ε β} {xs : List α} :
    (∃ ys, xs.mapM f = .ok ys) ↔ ∀ x ∈ xs, ∃ y, f x = .ok y := by
  simp only [mapM_eq_ok, exists_forall₂_iff]

end Succeeding

variable {types : String → String → Option UserType} {scope : Scope}

theorem resolveType_eq_ok {type : String} {t : UserType} :
    resolveType (declaredTypes types) scope type = .ok t ↔ types scope.entity type = some t := by
  simp only [resolveType, declaredTypes, Bind.bind, Except.bind]
  cases types scope.entity type <;> simp [pure, Except.pure, throw, throwThe, MonadExceptOf.throw]

theorem declaredField_eq_ok {t : UserType} {declared : FieldType} :
    declaredField t scope = .ok declared ↔ t.fieldType? scope.field = some declared := by
  unfold declaredField
  cases t.fieldType? scope.field <;> simp

theorem exists_fieldsToDeclared_iff {ask : SchemaLookup (Except QueryError)} {t : UserType}
    {fields : List (Named Value)} :
    (∃ ns, fieldsToDeclared ask t scope fields = .ok ns) ↔
      ∀ f ∈ fields, ∃ declared, t.fieldType? f.name = some declared ∧
        ∃ n, toDeclared ask declared (scope.nested f.name) f.value = .ok n := by
  simp only [fieldsToDeclared_eq_mapM, exists_mapM_iff, exists_bind_iff, ofExcept_eq,
    declaredField_eq_ok, pure_eq_ok, exists_eq', and_true]
  rfl

theorem exists_udt_iff {type : String} {fields : List (Named Value)}
    (ih : ∀ f ∈ fields, ∀ declared scope, (∃ n, toDeclared (declaredTypes types) declared scope
      f.value = .ok n) ↔ Fits declared f.value ∧
        f.value.Everywhere (Declared (some types) scope.entity)) :
    (∃ n, (do
      let t ← resolveType (declaredTypes types) scope type
      let ns ← fieldsToDeclared (declaredTypes types) t scope fields
      pure (Native.udt type ns)) = Except.ok n) ↔
      (Value.udt type fields).Everywhere (Declared (some types) scope.entity) := by
  rw [exists_bind_iff, Value.everywhere_udt]
  simp only [resolveType_eq_ok, exists_bind_pure_iff, exists_fieldsToDeclared_iff, Declared,
    Option.some.injEq, exists_and_left, exists_eq_left']
  constructor
  · rintro ⟨t, ht, hfields⟩
    refine ⟨⟨t, ht, fun f hf => ?_⟩, fun f hf => ?_⟩
    · obtain ⟨declared, hdeclared, hf'⟩ := hfields f hf
      exact ⟨declared, hdeclared, ((ih f hf declared _).mp hf').1⟩
    · obtain ⟨declared, -, hf'⟩ := hfields f hf
      exact ((ih f hf declared _).mp hf').2
  · rintro ⟨⟨t, ht, hfits⟩, heverywhere⟩
    refine ⟨t, ht, fun f hf => ?_⟩
    obtain ⟨declared, hdeclared, hfit⟩ := hfits f hf
    exact ⟨declared, hdeclared, (ih f hf declared _).mpr ⟨hfit, heverywhere f hf⟩⟩

theorem exists_narrow?_iff {i : Int64} :
    (∃ n, narrow? i = some n) ↔ -2 ^ 31 ≤ i.toInt ∧ i.toInt < 2 ^ 31 := by
  unfold narrow?
  split
  · next h => exact iff_of_true ⟨_, rfl⟩ h
  · next h => exact iff_of_false (by simp) h

theorem exists_toDeclared_scalar_iff {ask : SchemaLookup (Except QueryError)} {declared : FieldType}
    {v : Value} (hv : v.isScalar = true) :
    (∃ n, toDeclared ask declared scope v = .ok n) ↔ Fits declared v := by
  cases v with
  | list | map | udt => cases hv
  | null => exact iff_of_true ⟨_, rfl⟩ (.null declared)
  | int i =>
    cases declared with
    | int =>
      simp only [toDeclared]
      cases hn : narrow? i with
      | some n =>
        obtain ⟨lower, upper⟩ := exists_narrow?_iff.mp ⟨n, hn⟩
        exact iff_of_true ⟨_, rfl⟩ (.int lower upper)
      | none =>
        refine iff_of_false (by rintro ⟨_, ⟨⟩⟩) ?_
        rintro (_ | ⟨lower, upper⟩)
        obtain ⟨n, hsome⟩ := exists_narrow?_iff.mpr ⟨lower, upper⟩
        rw [hn] at hsome
        cases hsome
    | bigint => exact iff_of_true ⟨_, rfl⟩ (.bigint i)
    | _ => exact iff_of_false (by rintro ⟨_, ⟨⟩⟩) (by rintro ⟨⟩)
  | _ =>
    -- every other kind fits one type, by the one constructor that names both
    cases declared <;>
      first
      | exact iff_of_true ⟨_, rfl⟩ (by constructor)
      | exact iff_of_false (by rintro ⟨_, ⟨⟩⟩) (by rintro ⟨⟩)

/-- **The values that are converted against a declared type.** -/
theorem exists_toDeclared_iff (types : String → String → Option UserType) (declared : FieldType)
    (scope : Scope) (v : Value) :
    (∃ n, toDeclared (declaredTypes types) declared scope v = .ok n) ↔
      Fits declared v ∧ v.Everywhere (Declared (some types) scope.entity) := by
  induction v using Value.induct generalizing declared scope with
  | scalar v hv => rw [and_iff_left (declared_of_isScalar hv), exists_toDeclared_scalar_iff hv]
  | list items ih =>
    cases declared with
    | list element =>
      simp only [toDeclared, itemsToDeclared_eq_mapM, exists_bind_pure_iff, exists_mapM_iff]
      rw [fits_list_iff, Value.everywhere_list]
      simp only [Declared, true_and, ← forall₂_and]
      exact forall₂_congr fun v hv => ih v hv element scope
    | _ => exact iff_of_false (by rintro ⟨_, ⟨⟩⟩) (by rintro ⟨⟨⟩, -⟩)
  | map entries ih =>
    cases declared with
    | map value =>
      simp only [toDeclared, entriesToDeclared_eq_mapM, exists_bind_pure_iff, exists_mapM_iff]
      rw [fits_map_iff, Value.everywhere_map]
      simp only [Declared, true_and, ← forall₂_and]
      exact forall₂_congr fun e he => ih e he value (scope.nested e.name)
    | _ => exact iff_of_false (by rintro ⟨_, ⟨⟩⟩) (by rintro ⟨⟨⟩, -⟩)
  | udt type fields ih =>
    cases declared with
    | udt name =>
      simp only [toDeclared]
      split
      · next h =>
        subst h
        rw [exists_udt_iff ih, and_iff_right (.udt type fields)]
      · next h =>
        refine iff_of_false (by rintro ⟨_, ⟨⟩⟩) ?_
        rintro ⟨⟨⟩, -⟩
        exact h rfl
    | _ => exact iff_of_false (by rintro ⟨_, ⟨⟩⟩) (by rintro ⟨⟨⟩, -⟩)

/-- **The values that are converted without a declared type.** -/
theorem exists_toNative_iff (types? : Option (String → String → Option UserType)) (scope : Scope)
    (v : Value) :
    (∃ n, toNative (types?.map declaredTypes) scope v = .ok n) ↔
      v.Everywhere (Declared types? scope.entity) := by
  induction v using Value.induct generalizing scope with
  | scalar v hv =>
    refine iff_of_true ?_ (declared_of_isScalar hv)
    cases v with
    | list | map | udt => cases hv
    | _ => exact ⟨_, rfl⟩
  | list items ih =>
    simp only [toNative, itemsToNative_eq_mapM, exists_bind_pure_iff, exists_mapM_iff]
    rw [Value.everywhere_list]
    simp only [Declared, true_and]
    exact forall₂_congr fun v hv => ih v hv scope
  | map entries ih =>
    simp only [toNative, entriesToNative_eq_mapM, exists_bind_pure_iff, exists_mapM_iff]
    rw [Value.everywhere_map]
    simp only [Declared, true_and]
    exact forall₂_congr fun e he => ih e he (scope.nested e.name)
  | udt type fields =>
    cases types? with
    | none =>
      refine iff_of_false (by rintro ⟨_, ⟨⟩⟩) fun h => ?_
      obtain ⟨_, _, hnone, -⟩ := h.self
      cases hnone
    | some types =>
      exact exists_udt_iff fun f _ declared scope =>
        exists_toDeclared_iff types declared scope f.value

/-! ## Values of the store -/

namespace Native

/-- The value of the store holds no other values. -/
def isScalar : Native → Bool
  | .list _ | .map _ | .udt _ _ => false
  | _ => true

/-- The first value is the second one or occurs in it. -/
inductive Within : Native → Native → Prop
  | self (n : Native) : Within n n
  | item {m n : Native} {items : List Native} (hn : n ∈ items) (h : Within m n) :
    Within m (.list items)
  | entry {m : Native} {e : Named Native} {entries : List (Named Native)} (he : e ∈ entries)
    (h : Within m e.value) : Within m (.map entries)
  | field {m : Native} {e : Named Native} {type : String} {fields : List (Named Native)}
    (he : e ∈ fields) (h : Within m e.value) : Within m (.udt type fields)

/-- Every value within `n` has the property. -/
def Everywhere (P : Native → Prop) (n : Native) : Prop := ∀ m, Within m n → P m

section Everywhere

variable {P : Native → Prop}

theorem everywhere_of_isScalar {n : Native} (hn : n.isScalar = true) (h : P n) :
    n.Everywhere P := by
  intro m hm
  cases hm with
  | self => exact h
  | item | entry | field => cases hn

theorem everywhere_list {items : List Native} (h : P (.list items))
    (hitems : ∀ n ∈ items, n.Everywhere P) : Everywhere P (.list items) := by
  intro m hm
  cases hm with
  | self => exact h
  | item hn hm => exact hitems _ hn _ hm

theorem everywhere_map {entries : List (Named Native)} (h : P (.map entries))
    (hentries : ∀ e ∈ entries, e.value.Everywhere P) : Everywhere P (.map entries) := by
  intro m hm
  cases hm with
  | self => exact h
  | entry he hm => exact hentries _ he _ hm

theorem everywhere_udt {type : String} {fields : List (Named Native)} (h : P (.udt type fields))
    (hfields : ∀ f ∈ fields, f.value.Everywhere P) : Everywhere P (.udt type fields) := by
  intro m hm
  cases hm with
  | self => exact h
  | field he hm => exact hfields _ he _ hm

end Everywhere

end Native

/-- The value of the store has the declared type, or is null; a list or map holds such values. What
the fields of a user-defined value hold is not asked here. -/
inductive HasType : FieldType → Native → Prop
  | null (declared : FieldType) : HasType declared .null
  | int (i : Int32) : HasType .int (.int i)
  | bigint (i : Int64) : HasType .bigint (.bigint i)
  | double (d : Double) : HasType .double (.double d)
  | decimal (d : Decimal) : HasType .decimal (.decimal d)
  | text (s : String) : HasType .text (.text s)
  | boolean (b : Bool) : HasType .boolean (.boolean b)
  | blob (bytes : List UInt8) : HasType .blob (.blob bytes)
  | uuid (u : Uuid) : HasType .uuid (.uuid u)
  | timestamp (t : Timestamp) : HasType .timestamp (.timestamp t)
  | date (d : Date) : HasType .date (.date d)
  | list {element : FieldType} {items : List Native} (h : ∀ n ∈ items, HasType element n) :
    HasType (.list element) (.list items)
  | map {value : FieldType} {entries : List (Named Native)}
    (h : ∀ e ∈ entries, HasType value e.value) : HasType (.map value) (.map entries)
  | udt (name : String) (fields : List (Named Native)) : HasType (.udt name) (.udt name fields)

/-- The fields of a user-defined value of the store are declared, and have the declared types. -/
def Typed (types? : Option (String → String → Option UserType)) (entity : String) :
    Native → Prop
  | .udt type fields => ∃ types t, types? = some types ∧ types entity type = some t ∧
      ∀ f ∈ fields, ∃ declared, t.fieldType? f.name = some declared ∧ HasType declared f.value
  | _ => True

theorem typed_of_isScalar {types? : Option (String → String → Option UserType)} {entity : String}
    {n : Native} (hn : n.isScalar = true) : n.Everywhere (Typed types? entity) := by
  refine Native.everywhere_of_isScalar hn ?_
  cases n with
  | list | map | udt => cases hn
  | _ => trivial

/-! ## What comes out -/

theorem typed_of_fieldsToDeclared {ask : SchemaLookup (Except QueryError)} {P : Native → Prop}
    {t : UserType} {fields : List (Named Value)} {ns : List (Named Native)}
    (h : fieldsToDeclared ask t scope fields = .ok ns)
    (ih : ∀ f ∈ fields, ∀ declared n,
      toDeclared ask declared (scope.nested f.name) f.value = .ok n →
        HasType declared n ∧ n.Everywhere P) :
    (∀ f ∈ ns, ∃ declared, t.fieldType? f.name = some declared ∧ HasType declared f.value) ∧
      ∀ f ∈ ns, f.value.Everywhere P := by
  rw [fieldsToDeclared_eq_mapM] at h
  rw [← forall₂_and]
  refine forall_of_forall₂ (mapM_eq_ok.mp h) fun f hf n hn => ?_
  obtain ⟨declared, hdeclared, hn⟩ := bind_eq_ok.mp hn
  obtain ⟨m, hm, hn⟩ := bind_eq_ok.mp hn
  obtain rfl := pure_eq_ok.mp hn
  rw [ofExcept_eq, declaredField_eq_ok] at hdeclared
  obtain ⟨htype, hevery⟩ := ih f hf declared m hm
  exact ⟨⟨declared, hdeclared, htype⟩, hevery⟩

theorem typed_of_udt {type : String} {fields : List (Named Value)} {n : Native}
    (h : (do
      let t ← resolveType (declaredTypes types) scope type
      let ns ← fieldsToDeclared (declaredTypes types) t scope fields
      pure (Native.udt type ns)) = Except.ok n)
    (ih : ∀ f ∈ fields, ∀ declared n,
      toDeclared (declaredTypes types) declared (scope.nested f.name) f.value = .ok n →
        HasType declared n ∧ n.Everywhere (Typed (some types) scope.entity)) :
    (∃ ns, n = .udt type ns) ∧ n.Everywhere (Typed (some types) scope.entity) := by
  obtain ⟨t, ht, h⟩ := bind_eq_ok.mp h
  obtain ⟨ns, hns, h⟩ := bind_eq_ok.mp h
  obtain rfl := pure_eq_ok.mp h
  obtain ⟨hfields, hevery⟩ := typed_of_fieldsToDeclared hns ih
  have htyped : Typed (some types) scope.entity (.udt type ns) :=
    ⟨types, t, rfl, resolveType_eq_ok.mp ht, hfields⟩
  exact ⟨⟨ns, rfl⟩, Native.everywhere_udt htyped hevery⟩

theorem hasType_of_toDeclared_scalar {ask : SchemaLookup (Except QueryError)}
    {declared : FieldType} {v : Value} {n : Native} (hv : v.isScalar = true)
    (h : toDeclared ask declared scope v = .ok n) : HasType declared n ∧ n.isScalar = true := by
  cases v with
  | list | map | udt => cases hv
  | null =>
    obtain rfl := pure_eq_ok.mp h
    exact ⟨.null declared, rfl⟩
  | int i =>
    cases declared with
    | int =>
      simp only [toDeclared] at h
      split at h
      · obtain rfl := pure_eq_ok.mp h
        exact ⟨.int _, rfl⟩
      · cases h
    | bigint =>
      obtain rfl := pure_eq_ok.mp h
      exact ⟨.bigint i, rfl⟩
    | _ => cases h
  | _ =>
    cases declared <;>
      first
      | cases h <;> done
      | (obtain rfl := pure_eq_ok.mp h
         exact ⟨by constructor, rfl⟩)

/-- **What comes out of a conversion against a declared type has this type, and all that it holds is
typed.** -/
theorem typed_of_toDeclared (declared : FieldType) (scope : Scope) {v : Value} {n : Native}
    (h : toDeclared (declaredTypes types) declared scope v = .ok n) :
    HasType declared n ∧ n.Everywhere (Typed (some types) scope.entity) := by
  induction v using Value.induct generalizing declared scope n with
  | scalar v hv =>
    obtain ⟨htype, hscalar⟩ := hasType_of_toDeclared_scalar hv h
    exact ⟨htype, typed_of_isScalar hscalar⟩
  | list items ih =>
    cases declared with
    | list element =>
      simp only [toDeclared, itemsToDeclared_eq_mapM] at h
      obtain ⟨ns, hns, h⟩ := bind_eq_ok.mp h
      obtain rfl := pure_eq_ok.mp h
      have hitems := forall_of_forall₂ (mapM_eq_ok.mp hns) fun v hv n => ih v hv element scope
      rw [forall₂_and] at hitems
      exact ⟨.list hitems.1, Native.everywhere_list trivial hitems.2⟩
    | _ => cases h
  | map entries ih =>
    cases declared with
    | map value =>
      simp only [toDeclared, entriesToDeclared_eq_mapM] at h
      obtain ⟨ns, hns, h⟩ := bind_eq_ok.mp h
      obtain rfl := pure_eq_ok.mp h
      have hentries : ∀ e ∈ ns, HasType value e.value ∧
          e.value.Everywhere (Typed (some types) scope.entity) := by
        refine forall_of_forall₂ (mapM_eq_ok.mp hns) fun e he n hn => ?_
        obtain ⟨m, hm, hn⟩ := bind_eq_ok.mp hn
        obtain rfl := pure_eq_ok.mp hn
        exact ih e he value (scope.nested e.name) hm
      rw [forall₂_and] at hentries
      exact ⟨.map hentries.1, Native.everywhere_map trivial hentries.2⟩
    | _ => cases h
  | udt type fields ih =>
    cases declared with
    | udt name =>
      simp only [toDeclared] at h
      split at h
      · next hname =>
        subst hname
        obtain ⟨⟨ns, rfl⟩, hevery⟩ := typed_of_udt h fun f hf declared _ => ih f hf declared _
        exact ⟨.udt type ns, hevery⟩
      · cases h
    | _ => cases h

/-- **All that comes out of a conversion is typed.** -/
theorem typed_of_toNative {types? : Option (String → String → Option UserType)} (scope : Scope)
    {v : Value} {n : Native} (h : toNative (types?.map declaredTypes) scope v = .ok n) :
    n.Everywhere (Typed types? scope.entity) := by
  induction v using Value.induct generalizing scope n with
  | scalar v hv =>
    cases v with
    | list | map | udt => cases hv
    | _ =>
      obtain rfl := pure_eq_ok.mp h
      exact typed_of_isScalar rfl
  | list items ih =>
    simp only [toNative, itemsToNative_eq_mapM] at h
    obtain ⟨ns, hns, h⟩ := bind_eq_ok.mp h
    obtain rfl := pure_eq_ok.mp h
    exact Native.everywhere_list trivial (forall_of_forall₂ (mapM_eq_ok.mp hns) fun v hv n => ih v hv scope)
  | map entries ih =>
    simp only [toNative, entriesToNative_eq_mapM] at h
    obtain ⟨ns, hns, h⟩ := bind_eq_ok.mp h
    obtain rfl := pure_eq_ok.mp h
    refine Native.everywhere_map trivial (forall_of_forall₂ (mapM_eq_ok.mp hns) fun e he n hn => ?_)
    obtain ⟨m, hm, hn⟩ := bind_eq_ok.mp hn
    obtain rfl := pure_eq_ok.mp hn
    exact ih e he (scope.nested e.name) hm
  | udt type fields =>
    cases types? with
    | none => cases h
    | some types => exact (typed_of_udt h fun f _ declared _ => typed_of_toDeclared declared _).2

/-! ## Both -/

/-- **A value is converted exactly if every user-defined value in it, at any depth, has a declared
type, declared fields only, and values in them that fit. Every user-defined value that comes out has
fields of the declared types. All that is reported is an error of conversion for the entity.** -/
theorem converts_iff_declared (types? : Option (String → String → Option UserType)) (scope : Scope)
    (v : Value) :
    ((∃ n, toNative (types?.map declaredTypes) scope v = .ok n) ↔
      v.Everywhere (Declared types? scope.entity)) ∧
    (∀ n, toNative (types?.map declaredTypes) scope v = .ok n →
      n.Everywhere (Typed types? scope.entity)) ∧
    ErrsOnly (·.IsConversion scope.entity) (toNative (types?.map declaredTypes) scope v) :=
  ⟨exists_toNative_iff types? scope v, fun _ => typed_of_toNative scope,
    errsOnly_toNative types? scope v⟩

/-- The address of a person is declared, and what comes out is typed; an integer beyond 32 bits, in a
list in a field, is not. -/
theorem converts_iff_declared_nestedAddress :
    let types? := some addresses.userType?
    toNative (types?.map declaredTypes) ⟨"person", "home"⟩ nestedAddress = .ok nestedNative ∧
      nestedAddress.Everywhere (Declared types? "person") ∧
      nestedNative.Everywhere (Typed types? "person") ∧
      ¬ (Value.udt "address" [⟨"floors", .list [.int 2147483648]⟩]).Everywhere
        (Declared types? "person") := by
  intro types?
  have hto : toNative (types?.map declaredTypes) ⟨"person", "home"⟩ nestedAddress =
      .ok nestedNative := by rfl
  obtain ⟨hiff, htyped, -⟩ := converts_iff_declared types? ⟨"person", "home"⟩ nestedAddress
  refine ⟨hto, hiff.mp ⟨_, hto⟩, htyped _ hto, fun h => ?_⟩
  obtain ⟨n, hn⟩ := (converts_iff_declared types? ⟨"person", "home"⟩ _).1.mpr h
  cases hn

end PortableQuery.Cql
