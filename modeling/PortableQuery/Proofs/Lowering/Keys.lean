import PortableQuery.Proofs.Lowering.Walk

set_option autoImplicit false

/-!
# Keys beside a condition

Stores that fetch by key take the first predicate on the identity out of a condition, if it is the
root or a child of a root conjunction. What is wanted by key and what is left of the condition are
told apart here once, for all such stores.
-/

namespace PortableQuery

/-! ## Conditions on the identity -/

theorem CompilerConfig.isIdField_iff {config : CompilerConfig} {name : String} :
    config.isIdField name = true ↔ name = config.idField := by
  rw [isIdField, beq_iff_eq, eq_comm]

/-- The predicate asks for the identities in the value, which is a list of them. -/
inductive Condition.Wants (idField : String) : Condition → Value → Prop
  | equals (v : Value) : Wants idField (.predicate .equals ⟨idField, v⟩) (.list [v])
  | oneOf (v : Value) : Wants idField (.predicate .oneOf ⟨idField, v⟩) v

theorem Condition.isKey_iff {idField : String} {c : Condition} :
    c.isKey idField = true ↔ ∃ v, c.Wants idField v := by
  constructor
  · intro h
    unfold Condition.isKey at h
    split at h
    · next e =>
      obtain rfl := beq_iff_eq.mp h
      exact ⟨_, .equals e.value⟩
    · next e =>
      obtain rfl := beq_iff_eq.mp h
      exact ⟨_, .oneOf e.value⟩
    · cases h
  · rintro ⟨v, h⟩
    cases h <;> exact beq_self_eq_true idField

/-- A condition is split at itself if it asks for identities, and a conjunction at the first child
that does. -/
inductive Condition.SplitsAt (idField : String) : Condition → KeySplit → Prop
  | root {k : Condition} {v : Value} : k.Wants idField v → SplitsAt idField k ⟨k, []⟩
  | part {pre post : List Condition} {k : Condition} {v : Value} :
      (∀ c ∈ pre, ¬ ∃ w, c.Wants idField w) → k.Wants idField v →
      SplitsAt idField (.join .and (pre ++ k :: post)) ⟨k, pre ++ post⟩

theorem splitsAt_of_splitKey? {idField : String} {c : Condition} {split : KeySplit}
    (h : splitKey? idField c = some split) : c.SplitsAt idField split := by
  unfold splitKey? at h
  split at h
  · next hkey =>
    obtain rfl := Option.some.inj h
    obtain ⟨v, hv⟩ := Condition.isKey_iff.mp hkey
    exact .root hv
  · split at h
    · next children =>
      obtain ⟨key, hfind, rfl⟩ := Option.map_eq_some_iff.mp h
      obtain ⟨hkey, pre, post, rfl, hpre⟩ := List.find?_eq_some_iff_append.mp hfind
      obtain ⟨v, hv⟩ := Condition.isKey_iff.mp hkey
      have hpre : ∀ c ∈ pre, ¬ c.isKey idField = true := fun c hc => by simpa using hpre c hc
      rw [List.eraseP_append_right _ hpre, List.eraseP_cons_of_pos hkey]
      exact .part (fun c hc hw => hpre c hc (Condition.isKey_iff.mpr hw)) hv
    · cases h

theorem Condition.SplitsAt.wants {idField : String} {c : Condition} {split : KeySplit}
    (h : c.SplitsAt idField split) : ∃ v, split.key.Wants idField v := by
  cases h with
  | root hv | part _ hv => exact ⟨_, hv⟩

/-- What a condition asks for by key, as a list, and what is left of it. -/
inductive Divided (config : CompilerConfig) :
    Option Condition → Option Value → Option Condition → Prop
  /-- Keys are not looked up, or no predicate asks for any where it could. -/
  | whole {c : Option Condition} :
      (config.pointLookup = true → ∀ x ∈ c, ¬ (∃ v, x.Wants config.idField v) ∧
        ∀ cs, x = .join .and cs → ∀ y ∈ cs, ¬ ∃ v, y.Wants config.idField v) →
      Divided config c none c
  /-- The whole condition asks for keys. -/
  | root {k : Condition} {v : Value} : config.pointLookup = true → k.Wants config.idField v →
      Divided config (some k) (some v) none
  /-- One part of a conjunction asks for keys, and no part before it. -/
  | part {pre post : List Condition} {k : Condition} {v : Value} : config.pointLookup = true →
      (∀ c ∈ pre, ¬ ∃ w, c.Wants config.idField w) → k.Wants config.idField v →
      Divided config (some (.join .and (pre ++ k :: post))) (some v) (residual (pre ++ post))

theorem divided_of_splitKey? {config : CompilerConfig} {c : Condition} {split : KeySplit}
    (hlookup : config.pointLookup = true) (h : splitKey? config.idField c = some split) :
    ∃ v, split.key.Wants config.idField v ∧
      Divided config (some c) (some v) (residual split.rest) := by
  cases splitsAt_of_splitKey? h with
  | root hv => exact ⟨_, hv, .root hlookup hv⟩
  | part hpre hv => exact ⟨_, hv, .part hlookup hpre hv⟩

theorem divided_of_splitKey?_eq_none {config : CompilerConfig} {c : Condition}
    (h : config.pointLookup = true → splitKey? config.idField c = none) :
    Divided config (some c) none (some c) := by
  refine .whole fun hlookup x hx => ?_
  obtain rfl := Option.some.inj hx
  have h := h hlookup
  unfold splitKey? at h
  split at h
  · cases h
  · next hkey =>
    refine ⟨fun hw => hkey (Condition.isKey_iff.mpr hw), ?_⟩
    rintro cs rfl y hy hw
    have hnone := List.find?_eq_none.mp (Option.map_eq_none_iff.mp h)
    exact hnone y hy (Condition.isKey_iff.mpr hw)

theorem holds_residual {p : Comparison Value → Prop} (cs : List Condition) :
    (∀ c ∈ residual cs, c.formula.Holds p) ↔ ∀ c ∈ cs, c.formula.Holds p := by
  match cs with
  | [] | [_] | _ :: _ :: _ => simp [residual]

/-- **A condition holds if the identity is wanted and what is left holds.** -/
theorem Divided.holds_iff {config : CompilerConfig} {p : Comparison Value → Prop}
    {wanted : Value → Prop}
    (hwanted : ∀ k v, Condition.Wants config.idField k v → (k.formula.Holds p ↔ wanted v))
    {c rest : Option Condition} {keys : Option Value} (h : Divided config c keys rest) :
    (∀ x ∈ c, x.formula.Holds p) ↔
      (∀ v ∈ keys, wanted v) ∧ ∀ x ∈ rest, x.formula.Holds p := by
  cases h with
  | whole _ => simp
  | root _ hk => simp [hwanted _ _ hk]
  | @part pre post k v _ _ hk =>
    have hv : (∀ w ∈ some v, wanted w) ↔ k.formula.Holds p := by simp [hwanted k v hk]
    rw [hv, holds_residual]
    simp [or_imp, forall_and, and_left_comm]

theorem Divided.keys_ne_none_iff {config : CompilerConfig} (hlookup : config.pointLookup = true)
    {c : Condition} {keys : Option Value} {rest : Option Condition}
    (h : Divided config (some c) keys rest) :
    keys ≠ none ↔ (∃ v, c.Wants config.idField v) ∨
      ∃ cs, c = .join .and cs ∧ ∃ k ∈ cs, ∃ v, k.Wants config.idField v := by
  cases h with
  | whole hnone =>
    obtain ⟨hroot, hparts⟩ := hnone hlookup c rfl
    refine ⟨fun h => absurd rfl h, ?_⟩
    rintro (hwants | ⟨cs, rfl, k, hk, hwants⟩)
    · exact absurd hwants hroot
    · exact absurd hwants (hparts cs rfl k hk)
  | root _ hk => exact ⟨fun _ => .inl ⟨_, hk⟩, fun _ => Option.some_ne_none _⟩
  | part _ _ hk =>
    exact ⟨fun _ => .inr ⟨_, rfl, _, by simp, _, hk⟩, fun _ => Option.some_ne_none _⟩

/-! ## What becomes of them -/

namespace Dialect

variable {F N : Type} {d : Dialect (Except QueryError) F N} {config : CompilerConfig}
  {entity : String}

theorem splitsAt_of_keySplit? {c : Condition} {split : KeySplit}
    (h : d.keySplit? config c = some split) : c.SplitsAt config.idField split := by
  unfold keySplit? at h
  split at h
  · exact splitsAt_of_splitKey? h
  · cases h

variable (d) in
/-- The identities are converted one by one; there is at least one of them. -/
inductive KeysConverted (scope : Scope) : Option Value → List N → Prop
  | none : KeysConverted scope none []
  | some {items : List Value} {ns : List N} : items ≠ [] →
      List.Forall₂ (fun v n => d.toNative scope v = .ok n) items ns →
      KeysConverted scope (some (.list items)) ns

theorem KeysConverted.eq_nil_iff {scope : Scope} {keys : Option Value} {ns : List N}
    (h : d.KeysConverted scope keys ns) : ns = [] ↔ keys = Option.none := by
  cases h with
  | none => simp
  | some hne hns =>
    have hns_ne : ns ≠ [] := by
      rintro rfl
      exact hne (List.forall₂_nil_right_iff.mp hns)
    simp [hns_ne]

variable (d config entity) in
/-- What is left of a condition is lowered from the first placeholder on. -/
inductive RestLowered : Option Condition → Option F → List (Parameter N) → Prop
  | none : RestLowered none none []
  | some {c : Condition} {f : F} {b : Binder N} :
      d.lowerCondition config entity c { style := d.style } = .ok (f, b) →
      RestLowered (some c) (some f) b.parameters

theorem keysConverted_of_keys {k : Condition} {v : Value} {ns : List N}
    (hk : k.Wants config.idField v) (h : d.keys config entity k = .ok ns) :
    d.KeysConverted ⟨entity, config.idField⟩ (some v) ns := by
  cases hk with
  | equals v =>
    simp only [keys] at h
    split at h
    · cases h
    · obtain ⟨p, hp, h⟩ := bind_eq_ok.mp h
      obtain ⟨-, x, hx, rfl⟩ := converts_of_predicate_eq_ok hp
      cases hx with
      | value _ _ _ hn =>
        obtain rfl := pure_eq_ok.mp h
        exact .some (by simp) (.cons hn .nil)
  | oneOf v =>
    simp only [keys] at h
    split at h
    · cases h
    · obtain ⟨p, hp, h⟩ := bind_eq_ok.mp h
      obtain ⟨-, x, hx, rfl⟩ := converts_of_predicate_eq_ok hp
      dsimp only at hx
      cases hx with
      | choice hne _ hns =>
        obtain rfl := pure_eq_ok.mp h
        exact .some hne hns
      | value _ hno => contradiction

theorem restLowered_of_lowerRest {rest : List Condition} {filter : Option F} {b : Binder N}
    (h : d.lowerRest config entity rest { style := d.style } = .ok (filter, b)) :
    d.RestLowered config entity (residual rest) filter b.parameters := by
  rw [lowerRest_eq] at h
  split at h
  · next hnone =>
    obtain ⟨rfl, rfl⟩ := Prod.mk.inj (Except.ok.inj h)
    rw [hnone]
    exact .none
  · next c hsome =>
    obtain ⟨⟨f, b'⟩, hc, h⟩ := map_eq_ok.mp h
    obtain ⟨rfl, rfl⟩ := Prod.mk.inj h
    rw [hsome]
    exact .some hc

/-- **A compiled query is divided, its keys are converted, and the rest is lowered.** -/
theorem exists_divided (hd : d.capabilities.pointLookup = true) {q : Query} {l : Lowered F N}
    (h : d.Lowering config q l) :
    ∃ keys rest, Divided config q.condition keys rest ∧
      d.KeysConverted ⟨q.entity, config.idField⟩ keys l.keyLookup ∧
      d.RestLowered config q.entity rest l.filter l.parameters := by
  cases h with
  | empty hq =>
    refine ⟨none, none, ?_, .none, .none⟩
    rw [hq]
    exact .whole fun _ x hx => by cases hx
  | whole hq hk hc =>
    refine ⟨none, _, ?_, .none, .some hc⟩
    rw [hq]
    refine divided_of_splitKey?_eq_none fun hlookup => ?_
    rwa [keySplit?, hd, hlookup, Bool.and_self, if_pos rfl] at hk
  | split hq hk hkeys hr =>
    rw [keySplit?, hd, Bool.true_and] at hk
    split at hk
    · next hlookup =>
      obtain ⟨v, hv, hdiv⟩ := divided_of_splitKey? hlookup hk
      exact ⟨some v, _, hq ▸ hdiv, keysConverted_of_keys hv hkeys, restLowered_of_lowerRest hr⟩
    · cases hk

end Dialect

end PortableQuery
