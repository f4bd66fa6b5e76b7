import PortableQuery.Proofs.Json.Renderable

set_option autoImplicit false

/-!
# Plain forms are read back

A plain form keeps maps with their order, and integers and doubles apart; of decimals, bytes,
identifiers, moments and days it keeps the texts. A JSON value is the plain form of what it is read
as, if its integers have 64 bits.
-/

namespace PortableQuery

/-! ## JSON values -/

namespace Json

@[elab_as_elim]
theorem induct {motive : Json → Prop}
    (scalar : ∀ j, (∀ items, j ≠ .array items) → (∀ members, j ≠ .object members) → motive j)
    (array : ∀ items, (∀ j ∈ items, motive j) → motive (.array items))
    (object : ∀ members, (∀ m ∈ members, motive m.value) → motive (.object members))
    (j : Json) : motive j := by
  refine @Json.rec motive (fun js => ∀ j ∈ js, motive j) (fun ms => ∀ m ∈ ms, motive m.value)
    (fun m => motive m.value) ?_ ?_ ?_ ?_ ?_ array object ?_ ?_ ?_ ?_ ?_ j
  case refine_6 => exact List.forall_mem_nil _
  case refine_7 => exact fun _ _ hj hjs => List.forall_mem_cons.mpr ⟨hj, hjs⟩
  case refine_8 => exact List.forall_mem_nil _
  case refine_9 => exact fun _ _ hm hms => List.forall_mem_cons.mpr ⟨hm, hms⟩
  case refine_10 => exact fun _ _ h => h
  all_goals
    intros
    exact scalar _ nofun nofun

theorem allWellFormed_iff {items : List Json} :
    AllWellFormed items ↔ ∀ j ∈ items, j.WellFormed := by
  induction items with
  | nil => exact iff_of_true trivial (List.forall_mem_nil _)
  | cons j js ih => rw [AllWellFormed, List.forall_mem_cons, ih]

theorem membersWellFormed_iff {members : List (Named Json)} :
    MembersWellFormed members ↔ ∀ m ∈ members, m.value.WellFormed := by
  induction members with
  | nil => exact iff_of_true trivial (List.forall_mem_nil _)
  | cons m ms ih => rw [MembersWellFormed, List.forall_mem_cons, ih]

/-- Every integer has 64 bits with its sign. -/
inductive FitsInt64 : Json → Prop
  | null : FitsInt64 .null
  | bool (b : Bool) : FitsInt64 (.bool b)
  | int {i : Int} (low : -2 ^ 63 ≤ i) (high : i < 2 ^ 63) : FitsInt64 (.int i)
  | double (d : FiniteDouble) : FitsInt64 (.double d)
  | string (s : String) : FitsInt64 (.string s)
  | array {items : List Json} (h : ∀ j ∈ items, FitsInt64 j) : FitsInt64 (.array items)
  | object {members : List (Named Json)} (h : ∀ m ∈ members, FitsInt64 m.value) :
    FitsInt64 (.object members)

end Json

namespace Value

/-! ## What a plain form keeps -/

mutual

/-- The value with decimals, bytes, identifiers, moments and days replaced by their texts. -/
def spelled : Value → Value
  | .decimal d => .text d.text
  | .bytes b => .text (Base64.encode Base64.standard b)
  | .uuid u => .text u.text
  | .timestamp t => .text (t.text "+00:00")
  | .date d => .text d.text
  | .list items => .list (itemsSpelled items)
  | .map entries => .map (entriesSpelled entries)
  | .udt type fields => .udt type (entriesSpelled fields)
  | v => v
termination_by structural v => v

/-- The items, each with texts. -/
def itemsSpelled : List Value → List Value
  | [] => []
  | v :: vs => v.spelled :: itemsSpelled vs
termination_by structural vs => vs

/-- The entries, each with texts. -/
def entriesSpelled : List (Named Value) → List (Named Value)
  | [] => []
  | ⟨name, v⟩ :: es => ⟨name, v.spelled⟩ :: entriesSpelled es
termination_by structural es => es

end

theorem itemsSpelled_eq_map (vs : List Value) : itemsSpelled vs = vs.map spelled := by
  induction vs with
  | nil => rfl
  | cons v vs ih => rw [itemsSpelled, ih, List.map_cons]

theorem entriesSpelled_eq_map (es : List (Named Value)) :
    entriesSpelled es = es.map fun e => ⟨e.name, e.value.spelled⟩ := by
  induction es with
  | nil => rfl
  | cons e es ih => rw [entriesSpelled, ih, List.map_cons]

theorem itemsOfPlain_eq_map (js : List Json) : itemsOfPlain js = js.map ofPlain := by
  induction js with
  | nil => rfl
  | cons j js ih => rw [itemsOfPlain, ih, List.map_cons]

theorem entriesOfPlain_eq_map (ms : List (Named Json)) :
    entriesOfPlain ms = ms.map fun m => ⟨m.name, ofPlain m.value⟩ := by
  induction ms with
  | nil => rfl
  | cons m ms ih => rw [entriesOfPlain, ih, List.map_cons]

/-! ## Reading back -/

variable {scope : Scope}

theorem map_eq_map_of_forall₂ {α β γ : Type} {f : α → γ} {g : β → γ} {xs : List α} {ys : List β}
    (h : List.Forall₂ (fun x y => g y = f x) xs ys) : ys.map g = xs.map f := by
  induction h with
  | nil => rfl
  | cons hx _ ih => rw [List.map_cons, List.map_cons, hx, ih]

/-- **A plain form is read as the value with texts for what has no form of its own.** -/
theorem ofPlain_of_toPlain {v : Value} {j : Json} (h : v.toPlain scope = .ok j) :
    ofPlain j = v.spelled := by
  induction v using Value.induct generalizing scope j with
  | scalar v hv =>
    cases v with
    | list | map | udt => cases hv
    | int i =>
      obtain rfl := Except.ok.inj h
      exact ofInteger_toInt i
    | double d =>
      cases d with
      | finite x =>
        obtain rfl := Except.ok.inj h
        rfl
      | nan | infinite => cases h
    | _ =>
      obtain rfl := Except.ok.inj h
      rfl
  | list items ih =>
    obtain ⟨js, hjs, h⟩ := bind_eq_ok.mp h
    obtain rfl := pure_eq_ok.mp h
    have hread : List.Forall₂ (fun v j => ofPlain j = v.spelled) items js :=
      forall₂_imp_of_mem (fun v hv j hj => ih v hv hj) (itemsToPlain_eq_ok.mp hjs)
    rw [ofPlain, itemsOfPlain_eq_map, map_eq_map_of_forall₂ hread, spelled, itemsSpelled_eq_map]
  | map entries ih =>
    obtain ⟨ms, hms, h⟩ := bind_eq_ok.mp h
    obtain rfl := pure_eq_ok.mp h
    obtain ⟨-, -, hforms⟩ := entriesToPlain_eq_ok.mp hms
    have hread : List.Forall₂ (fun e m => (⟨m.name, ofPlain m.value⟩ : Named Value) =
        ⟨e.name, e.value.spelled⟩) entries ms :=
      forall₂_imp_of_mem (fun e he m hm => by rw [hm.1, ih e he hm.2]) hforms
    rw [ofPlain, entriesOfPlain_eq_map, map_eq_map_of_forall₂ hread, spelled,
      entriesSpelled_eq_map]
  | udt type fields => cases h

/-- In a plain form no object names a member twice, and every integer has 64 bits. -/
theorem wellFormed_of_toPlain {v : Value} {j : Json} (h : v.toPlain scope = .ok j) :
    j.WellFormed ∧ j.FitsInt64 := by
  induction v using Value.induct generalizing scope j with
  | scalar v hv =>
    cases v with
    | list | map | udt => cases hv
    | int i =>
      obtain rfl := Except.ok.inj h
      exact ⟨trivial, .int i.le_toInt i.toInt_lt⟩
    | double d =>
      cases d with
      | finite x =>
        obtain rfl := Except.ok.inj h
        exact ⟨trivial, .double x⟩
      | nan | infinite => cases h
    | null | bool =>
      obtain rfl := Except.ok.inj h
      exact ⟨trivial, by constructor⟩
    | _ =>
      obtain rfl := Except.ok.inj h
      exact ⟨trivial, .string _⟩
  | list items ih =>
    obtain ⟨js, hjs, h⟩ := bind_eq_ok.mp h
    obtain rfl := pure_eq_ok.mp h
    have hitems := forall_of_forall₂ (itemsToPlain_eq_ok.mp hjs) fun v hv j => ih v hv
    rw [forall₂_and] at hitems
    exact ⟨Json.allWellFormed_iff.mpr hitems.1, .array hitems.2⟩
  | map entries ih =>
    obtain ⟨ms, hms, h⟩ := bind_eq_ok.mp h
    obtain rfl := pure_eq_ok.mp h
    obtain ⟨hnodup, -, hforms⟩ := entriesToPlain_eq_ok.mp hms
    have hnames : Named.names ms = Named.names entries :=
      map_eq_map_of_forall₂ (hforms.imp fun _ _ hm => hm.1)
    have hmembers := forall_of_forall₂ hforms fun e he m hm => ih e he hm.2
    rw [forall₂_and] at hmembers
    rw [Json.WellFormed, hnames]
    exact ⟨⟨hnodup, Json.membersWellFormed_iff.mpr hmembers.1⟩, .object hmembers.2⟩
  | udt type fields => cases h

/-- **A JSON value is the plain form of what it is read as**, if its integers have 64 bits. -/
theorem toPlain_ofPlain {j : Json} (hj : j.WellFormed) (hfits : j.FitsInt64) :
    (ofPlain j).toPlain scope = .ok j := by
  induction j using Json.induct generalizing scope with
  | scalar j harray hobject =>
    cases hfits with
    | int low high =>
      rw [ofPlain, ofInteger, if_pos ⟨low, high⟩, toPlain, Int64.toInt_ofInt_of_le low high]
    | array => exact absurd rfl (harray _)
    | object => exact absurd rfl (hobject _)
    | _ => rfl
  | array items ih =>
    cases hfits with | array hitems =>
    rw [Json.WellFormed, Json.allWellFormed_iff] at hj
    have hforms : itemsToPlain scope (itemsOfPlain items) = .ok items := by
      rw [itemsToPlain_eq_ok, itemsOfPlain_eq_map, List.forall₂_map_left_iff, List.forall₂_same]
      exact fun j hmem => ih j hmem (hj j hmem) (hitems j hmem)
    exact bind_eq_ok.mpr ⟨items, hforms, rfl⟩
  | object members ih =>
    cases hfits with | object hmembers =>
    rw [Json.WellFormed, Json.membersWellFormed_iff] at hj
    obtain ⟨hnodup, hvalues⟩ := hj
    have hforms : entriesToPlain scope [] (entriesOfPlain members) = .ok members := by
      rw [entriesToPlain_eq_ok, entriesOfPlain_eq_map, List.forall₂_map_left_iff,
        List.forall₂_same, Named.names, List.map_map]
      exact ⟨hnodup, fun _ _ => List.not_mem_nil,
        fun m hmem => ⟨rfl, ih m hmem (hvalues m hmem) (hmembers m hmem)⟩⟩
    exact bind_eq_ok.mpr ⟨members, hforms, rfl⟩

/-! ## Both directions -/

/-- **Exactly the values without a user-defined value, a double without digits and a map with a
repeated key in them have a plain form, and every failure is an error of conversion. The form is
read as the value with texts for its decimals, bytes, identifiers, moments and days; the entries of
a map keep their order, and integers and doubles stay apart. No object in it names a member twice
and its integers have 64 bits, and every such JSON value is the plain form of what it is read as.**
-/
theorem plain_round_trip (scope : Scope) :
    (∀ v : Value, (∃ j, v.toPlain scope = .ok j) ↔ v.Everywhere Renderable) ∧
      (∀ v : Value, ErrsOnly (·.IsConversion scope.entity) (v.toPlain scope)) ∧
      (∀ (v : Value) (j : Json), v.toPlain scope = .ok j →
        ofPlain j = v.spelled ∧ j.WellFormed ∧ j.FitsInt64) ∧
      (∀ j : Json, j.WellFormed → j.FitsInt64 → (ofPlain j).toPlain scope = .ok j) :=
  ⟨exists_toPlain_iff scope, errsOnly_toPlain scope,
    fun _ _ h => ⟨ofPlain_of_toPlain h, wellFormed_of_toPlain h⟩, fun _ => toPlain_ofPlain⟩

/-- A map whose entries are not in order, with a negative zero, a whole double, the least integer,
bytes, a day and a map in a list. -/
def mixed : Value :=
  .map [⟨"z", .list [.double (.finite (.zero true)),
      .double (.finite ⟨false, ⟨4607182418800017408, by decide⟩⟩), .int Int64.minValue, .null]⟩,
    ⟨"", .list [.bytes [251, 255], .date ⟨2024, 2, 29, by decide, by decide, by decide⟩,
      .map [⟨"z", .text "plain"⟩, ⟨"a", .bool true⟩]]⟩]

/-- The plain form of it. -/
def mixedForm : Json :=
  .object [⟨"z", .array [.double (.zero true), .double ⟨false, ⟨4607182418800017408, by decide⟩⟩,
      .int (-9223372036854775808), .null]⟩,
    ⟨"", .array [.string "+/8=", .string "2024-02-29",
      .object [⟨"z", .string "plain"⟩, ⟨"a", .bool true⟩]]⟩]

/-- It is read back with two texts in it, and the form is that of what is read back. -/
theorem plain_round_trip_mixed :
    mixed.toPlain ⟨"Event", "data"⟩ = .ok mixedForm ∧ ofPlain mixedForm = mixed.spelled ∧
      mixed.spelled.toPlain ⟨"Event", "data"⟩ = .ok mixedForm := by
  obtain ⟨-, -, hread, hform⟩ := plain_round_trip ⟨"Event", "data"⟩
  have hmixed : mixed.toPlain ⟨"Event", "data"⟩ = .ok mixedForm := rfl
  obtain ⟨hspelled, hwell, hfits⟩ := hread mixed mixedForm hmixed
  refine ⟨hmixed, hspelled, ?_⟩
  rw [← hspelled]
  exact hform mixedForm hwell hfits

end Value

end PortableQuery
