import PortableQuery.Proofs.Cql.Conversion
import PortableQuery.Proofs.Schema.Asking

set_option autoImplicit false

/-!
# Conversion to CQL loses nothing

A declared type only narrows integers, and only those that fit, so reading the converted value back
gives the value. The other way round, only the width of integers is forgotten.
-/

namespace PortableQuery.Cql

namespace Native

@[elab_as_elim]
theorem induct {motive : Native → Prop}
    (scalar : ∀ n, (∀ items, n ≠ .list items) → (∀ entries, n ≠ .map entries) →
      (∀ type fields, n ≠ .udt type fields) → motive n)
    (list : ∀ items, (∀ n ∈ items, motive n) → motive (.list items))
    (map : ∀ entries, (∀ e ∈ entries, motive e.value) → motive (.map entries))
    (udt : ∀ type fields, (∀ e ∈ fields, motive e.value) → motive (.udt type fields))
    (n : Native) : motive n := by
  refine @Native.rec motive (fun ns => ∀ n ∈ ns, motive n) (fun es => ∀ e ∈ es, motive e.value)
    (fun e => motive e.value) ?_ ?_ ?_ ?_ ?_ ?_ ?_ ?_ ?_ ?_ ?_ list map udt ?_ ?_ ?_ ?_ ?_ n
  case refine_12 => exact List.forall_mem_nil _
  case refine_13 => exact fun _ _ hn hns => List.forall_mem_cons.mpr ⟨hn, hns⟩
  case refine_14 => exact List.forall_mem_nil _
  case refine_15 => exact fun _ _ he hes => List.forall_mem_cons.mpr ⟨he, hes⟩
  case refine_16 => exact fun _ _ h => h
  all_goals
    intros
    exact scalar _ nofun nofun nofun

mutual

/-- A user-defined value is somewhere in the value. -/
def holdsUdt : Native → Bool
  | .list items => itemsHoldUdt items
  | .map entries => entriesHoldUdt entries
  | .udt _ _ => true
  | _ => false
termination_by structural n => n

/-- A user-defined value is somewhere in an item. -/
def itemsHoldUdt : List Native → Bool
  | [] => false
  | n :: ns => holdsUdt n || itemsHoldUdt ns
termination_by structural ns => ns

/-- A user-defined value is somewhere in the value of an entry. -/
def entriesHoldUdt : List (Named Native) → Bool
  | [] => false
  | ⟨_, n⟩ :: es => holdsUdt n || entriesHoldUdt es
termination_by structural es => es

end

mutual

/-- The value with every integer in 64 bits. -/
def widen : Native → Native
  | .int i => .bigint i.toInt64
  | .list items => .list (widenItems items)
  | .map entries => .map (widenEntries entries)
  | .udt type fields => .udt type (widenEntries fields)
  | n => n
termination_by structural n => n

/-- Each item with every integer in 64 bits. -/
def widenItems : List Native → List Native
  | [] => []
  | n :: ns => widen n :: widenItems ns
termination_by structural ns => ns

/-- The value of each entry with every integer in 64 bits. -/
def widenEntries : List (Named Native) → List (Named Native)
  | [] => []
  | ⟨key, n⟩ :: es => ⟨key, widen n⟩ :: widenEntries es
termination_by structural es => es

end

theorem itemsHoldUdt_eq_false {ns : List Native} :
    itemsHoldUdt ns = false ↔ ∀ n ∈ ns, n.holdsUdt = false := by
  induction ns with
  | nil => simp [itemsHoldUdt]
  | cons n ns ih => simp [itemsHoldUdt, ih]

theorem entriesHoldUdt_eq_false {es : List (Named Native)} :
    entriesHoldUdt es = false ↔ ∀ e ∈ es, e.value.holdsUdt = false := by
  induction es with
  | nil => simp [entriesHoldUdt]
  | cons e es ih => simp [entriesHoldUdt, ih]

theorem widenItems_eq_map (ns : List Native) : widenItems ns = ns.map widen := by
  induction ns with
  | nil => rfl
  | cons n ns ih => rw [widenItems, ih, List.map_cons]

theorem widenEntries_eq_map (es : List (Named Native)) :
    widenEntries es = es.map fun e => ⟨e.name, e.value.widen⟩ := by
  induction es with
  | nil => rfl
  | cons e es ih => rw [widenEntries, ih, List.map_cons]

end Native

theorem itemsOfNative_eq_map (ns : List Native) : itemsOfNative ns = ns.map ofNative := by
  induction ns with
  | nil => rfl
  | cons n ns ih => rw [itemsOfNative, ih, List.map_cons]

theorem entriesOfNative_eq_map (es : List (Named Native)) :
    entriesOfNative es = es.map fun e => ⟨e.name, ofNative e.value⟩ := by
  induction es with
  | nil => rfl
  | cons e es ih => rw [entriesOfNative, ih, List.map_cons]

theorem toInt64_of_narrow? {i : Int64} {n : Int32} (h : narrow? i = some n) : n.toInt64 = i := by
  unfold narrow? at h
  split at h
  · next hi =>
    cases h
    rw [← Int64.toInt_inj, Int32.toInt_toInt64, Int64.toInt_toInt32]
    exact Int.bmod_eq_of_le (by omega) (by omega)
  · cases h

/-! ## Reading back what was converted -/

section Forth

variable {σ : Type}

open Asking

theorem gives_entry {name : String} {v : Value} {x : Asking σ Native}
    (hx : Gives x fun n => ofNative n = v) :
    Gives (do
      let n ← x
      pure (⟨name, n⟩ : Named Native))
      fun e => (⟨e.name, ofNative e.value⟩ : Element) = ⟨name, v⟩ :=
  hx.bind fun n hn => .pure (by rw [hn])

theorem gives_fieldsToDeclared {ask : SchemaLookup (Asking σ)} {scope : Scope}
    {fields : List (Named Value)} (hf : ∀ f ∈ fields, ∀ declared scope,
      Gives (toDeclared ask declared scope f.value) fun n => ofNative n = f.value) (t : UserType) :
    Gives (fieldsToDeclared ask t scope fields) fun ns => entriesOfNative ns = fields := by
  simp only [fieldsToDeclared_eq_mapM, entriesOfNative_eq_map]
  exact .mapM fun f hmem => (Gives.any _).bind fun _ _ => gives_entry (hf f hmem _ _)

/-- **A value converted against a declared type is read back.** -/
theorem gives_toDeclared (ask : SchemaLookup (Asking σ)) (declared : FieldType) (scope : Scope)
    (v : Value) : Gives (toDeclared ask declared scope v) fun n => ofNative n = v := by
  induction v using Value.induct generalizing declared scope with
  | scalar v hv =>
    cases v with
    | list | map | udt => cases hv
    | null => exact .pure rfl
    | int i =>
      cases declared with
      | int =>
        simp only [toDeclared]
        split
        · next n hn => exact .pure (congrArg Value.int (toInt64_of_narrow? hn))
        · exact .throw _
      | bigint => exact .pure rfl
      | _ => exact .throw _
    | _ => cases declared <;> first | exact .pure rfl | exact .throw _
  | list items ih =>
    cases declared with
    | list element =>
      simp only [toDeclared, itemsToDeclared_eq_mapM]
      refine (Gives.mapM fun v hv => ih v hv element scope).bind fun ns hns => .pure ?_
      rw [ofNative, itemsOfNative_eq_map, hns]
    | _ => exact .throw _
  | map entries ih =>
    cases declared with
    | map value =>
      simp only [toDeclared, entriesToDeclared_eq_mapM]
      refine (Gives.mapM fun e he => gives_entry (ih e he value _)).bind fun ns hns => .pure ?_
      rw [ofNative, entriesOfNative_eq_map, hns]
    | _ => exact .throw _
  | udt type fields ih =>
    cases declared with
    | udt name =>
      simp only [toDeclared]
      split
      · refine (Gives.any _).bind fun t _ =>
          (gives_fieldsToDeclared ih t).bind fun ns hns => .pure ?_
        rw [ofNative, hns]
      · exact .throw _
    | _ => exact .throw _

/-- **A value converted without a declared type is read back.** -/
theorem gives_toNative (schema : Option (SchemaLookup (Asking σ))) (scope : Scope) (v : Value) :
    Gives (toNative schema scope v) fun n => ofNative n = v := by
  induction v using Value.induct generalizing scope with
  | scalar v hv =>
    cases v with
    | list | map | udt => cases hv
    | _ => exact .pure rfl
  | list items ih =>
    simp only [toNative, itemsToNative_eq_mapM]
    refine (Gives.mapM fun v hv => ih v hv scope).bind fun ns hns => .pure ?_
    rw [ofNative, itemsOfNative_eq_map, hns]
  | map entries ih =>
    simp only [toNative, entriesToNative_eq_mapM]
    refine (Gives.mapM fun e he => gives_entry (ih e he _)).bind fun ns hns => .pure ?_
    rw [ofNative, entriesOfNative_eq_map, hns]
  | udt type fields =>
    cases schema with
    | none => exact .throw _
    | some ask =>
      have hf : ∀ f ∈ fields, ∀ declared scope,
          Gives (toDeclared ask declared scope f.value) fun n => ofNative n = f.value :=
        fun f _ declared scope => gives_toDeclared ask declared scope f.value
      refine (Gives.any _).bind fun t _ => (gives_fieldsToDeclared hf t).bind fun ns hns => .pure ?_
      rw [ofNative, hns]

end Forth

/-! ## Converting back what was read -/

section Back

variable {m : Type → Type} [Monad m] [LawfulMonad m]

theorem mapM_eq_pure_map {α β : Type} {f : α → m β} {g : α → β} {xs : List α}
    (h : ∀ x ∈ xs, f x = pure (g x)) : xs.mapM f = pure (xs.map g) := by
  induction xs with
  | nil => rfl
  | cons x xs ih =>
    rw [List.forall_mem_cons] at h
    rw [List.mapM_cons, h.1, pure_bind, ih h.2, pure_bind, List.map_cons]

variable [MonadExceptOf QueryError m]

/-- **What holds no user-defined value is converted back in 64 bits**, and no schema is asked. -/
theorem toNative_ofNative (schema : Option (SchemaLookup m)) (scope : Scope) {n : Native}
    (hn : n.holdsUdt = false) : toNative schema scope (ofNative n) = pure n.widen := by
  induction n using Native.induct generalizing scope with
  | scalar n hlist hmap hudt =>
    cases n with
    | list items => exact absurd rfl (hlist items)
    | map entries => exact absurd rfl (hmap entries)
    | udt type fields => cases hn
    | _ => rfl
  | list items ih =>
    have hitems : ∀ n ∈ items, toNative schema scope (ofNative n) = pure n.widen :=
      fun n hmem => ih n hmem scope (Native.itemsHoldUdt_eq_false.mp hn n hmem)
    simp only [ofNative, toNative, itemsToNative_eq_mapM, itemsOfNative_eq_map, List.mapM_map,
      Function.comp_def]
    rw [mapM_eq_pure_map hitems, pure_bind, Native.widen, Native.widenItems_eq_map]
  | map entries ih =>
    have hentries : ∀ e ∈ entries, ∀ scope,
        toNative schema scope (ofNative e.value) = pure e.value.widen :=
      fun e hmem scope => ih e hmem scope (Native.entriesHoldUdt_eq_false.mp hn e hmem)
    simp only [ofNative, toNative, entriesToNative_eq_mapM, entriesOfNative_eq_map, List.mapM_map,
      Function.comp_def]
    rw [mapM_eq_pure_map fun e hmem => by rw [hentries e hmem, pure_bind], pure_bind, Native.widen,
      Native.widenEntries_eq_map]
  | udt type fields => cases hn

end Back

/-! ## Both ways -/

/-- **Conversion loses nothing.** A converted value is read back as the value that it was, whatever
the schema answers, if there is one. A value of the store without user-defined values is read and
converted back, with its integers in 64 bits and no question to the schema. -/
theorem conversion_lossless {σ : Type} (schema : Option (SchemaLookup (Asking σ))) (scope : Scope) :
    (∀ (v : Value) (s : σ) (n : Native) (s' : σ),
      Asking.outcome (toNative schema scope v) s = (.ok n, s') → ofNative n = v) ∧
    ∀ n : Native, n.holdsUdt = false → ∀ s : σ,
      Asking.outcome (toNative schema scope (ofNative n)) s = (.ok n.widen, s) := by
  refine ⟨gives_toNative schema scope, fun n hn s => ?_⟩
  rw [toNative_ofNative schema scope hn, Asking.outcome_pure]

section Nested

/-- A schema with a type for addresses, which hold numbers of both widths and another type. -/
def addresses : Schema where
  types :=
    [(("person", "address"), ⟨"address",
        [⟨"number", .int⟩, ⟨"floors", .list .int⟩, ⟨"keeper", .udt "keeper"⟩]⟩),
      (("person", "keeper"), ⟨"keeper", [⟨"phones", .map .bigint⟩]⟩)]

/-- A list with an address in it: integers at both ends of 32 bits, one beyond them, nulls in typed
fields, a repeated field and a repeated key. -/
def nestedAddress : Value :=
  .list [.udt "address"
      [⟨"floors", .list [.int (-2147483648), .null, .int 2147483647]⟩,
        ⟨"keeper", .udt "keeper" [⟨"phones", .map [⟨"k", .int 2147483648⟩, ⟨"k", .int 5⟩]⟩]⟩,
        ⟨"number", .int 12⟩, ⟨"number", .null⟩],
    .double .nan]

/-- The address as the store has it. -/
def nestedNative : Native :=
  .list [.udt "address"
      [⟨"floors", .list [.int (-2147483648), .null, .int 2147483647]⟩,
        ⟨"keeper", .udt "keeper" [⟨"phones", .map [⟨"k", .bigint 2147483648⟩, ⟨"k", .bigint 5⟩]⟩]⟩,
        ⟨"number", .int 12⟩, ⟨"number", .null⟩],
    .double .nan]

/-- An address in a list is read back, and so is a map of narrow integers, which become wide. -/
theorem conversion_lossless_nested :
    let ask : SchemaLookup (Asking SchemaSource) := fun entity type =>
      liftM (SchemaSource.ask entity type)
    Asking.outcome (toNative (some ask) ⟨"person", "home"⟩ nestedAddress) ⟨addresses, 0⟩ =
        (.ok nestedNative, ⟨addresses, 2⟩) ∧
      ofNative nestedNative = nestedAddress ∧
      Asking.outcome (toNative (some ask) ⟨"person", "home"⟩
          (ofNative (.map [⟨"k", .int (-1)⟩, ⟨"k", .list [.bigint 7, .null]⟩]))) ⟨addresses, 0⟩ =
        (.ok (.map [⟨"k", .bigint (-1)⟩, ⟨"k", .list [.bigint 7, .null]⟩]), ⟨addresses, 0⟩) := by
  intro ask
  have hto : Asking.outcome (toNative (some ask) ⟨"person", "home"⟩ nestedAddress) ⟨addresses, 0⟩ =
      (.ok nestedNative, ⟨addresses, 2⟩) := by rfl
  have h := conversion_lossless (some ask) ⟨"person", "home"⟩
  exact ⟨hto, h.1 nestedAddress _ nestedNative _ hto, h.2 _ rfl _⟩

end Nested

end PortableQuery.Cql
