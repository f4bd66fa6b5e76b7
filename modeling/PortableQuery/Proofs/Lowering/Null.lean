import PortableQuery.Proofs.Lowering.Fault

set_option autoImplicit false

/-!
# Comparisons with null

A dialect refuses a predicate whose value is null, except for operators that it writes in another
way. It looks at the value as a whole only: null as an item of a choice or as a bound of a range is
bound as any other value.
-/

namespace PortableQuery

/-- The visit is one of a predicate on null with an operator that is not spared, or of keys among
which there is null. -/
def Visit.MeetsNull (spares : Operator → Prop) : Visit → Prop
  | .key (.predicate _ e) => e.value.holdsNull = true
  | .node (.predicate o e) => e.value = .null ∧ ¬ spares o
  | _ => False

theorem Comparison.eq_or_of_mem_operands {a x : Comparison Value}
    (h : x ∈ a.operands Value.items?) : x = a ∨ x.operator = .oneOf ∨ x.operator = .between := by
  unfold operands at h
  split at h
  · rcases List.mem_pair.mp h with rfl | rfl <;> exact .inr (.inr rfl)
  · obtain ⟨v, -, rfl⟩ := List.mem_map.mp h
    exact .inr (.inl rfl)
  · exact .inl (List.mem_singleton.mp h)

theorem exists_mem_parametersFrom_iff {N : Type} {style : ParamStyle} {n : Nat}
    {us : List (Named N)} {v : N} :
    (∃ p ∈ parametersFrom style n us, p.value = v) ↔ ∃ u ∈ us, u.value = v := by
  induction us generalizing n with
  | nil => simp [parametersFrom]
  | cons u us ih => simp only [parametersFrom, List.exists_mem_cons_iff, ih]

namespace Dialect

variable {F N : Type} {d : Dialect (Except QueryError) F N} {config : CompilerConfig}
  {entity : String}

/-- What has to be known of the steps of a dialect: null converts to `null`, and nothing else does.
A predicate on it is at fault, or it is spared and binds nothing. -/
structure NullSteps (B : d.Binding) (null : N) (spares : Operator → Prop) : Prop where
  steady : Steady B
  equals_of_spares {o : Operator} (ho : spares o) : o = .equals
  toNative_eq_null {scope : Scope} {v : Value} : d.toNative scope v = .ok null ↔ v = .null
  translate_eq_null {o : Operator} {n : N} : B.translate o n = null ↔ n = null
  binds_iff {a : Comparison Value} : B.binds a = true ↔ ¬ (spares a.operator ∧ a.value = .null)
  lower_null {o : Operator} {name path : String} {b : Binder N} (ho : ¬ spares o) :
    ∃ reason, d.lower ⟨o, name, path, .single null⟩ b = .error (.invalid reason)
  assemble {config : CompilerConfig} {q : Query} {l : Lowered F N} {s : Statement F N}
    (hs : d.assemble config q l = .ok s) :
    s.parameters = l.parameters ∧ s.keyLookup = l.keyLookup

/-- What becomes of null in a query. -/
structure GuardsNull (d : Dialect (Except QueryError) F N) (null : N) (spares : Operator → Prop)
    (config : CompilerConfig) (q : Query) : Prop where
  /-- A predicate on null is reported as invalid, if nothing before it is at fault. -/
  reported {c : Condition} (hq : q.condition = some c) (hpaging : d.badPaging q = none)
    (hcheck : d.capabilities.firstUnsupported c = none) {before behind : List Visit} {v : Visit}
    (hvisits : d.visits config c = before ++ v :: behind)
    (hbefore : ∀ x ∈ before, d.fault? config q.entity x = none) (hv : v.MeetsNull spares) :
    ∃ reason, d.compile config q = .error (.invalid reason)
  /-- No predicate of a query that compiles is on null, unless its operator is spared. -/
  compiled {s : Statement F N} (h : d.compile config q = .ok s) :
    ∀ c ∈ q.condition, ∀ a ∈ c.formula.atoms, a.value = .null → spares a.operator
  /-- No key is null. -/
  keys {s : Statement F N} (h : d.compile config q = .ok s) : null ∉ s.keyLookup
  /-- The parameters that are null are the items of choices and the bounds of ranges that are. -/
  parameters {s : Statement F N} (h : d.compile config q = .ok s) :
    (∃ p ∈ s.parameters, p.value = null) ↔ ∃ a ∈ operandsOf (d.remainder config q.condition),
      a.value = .null ∧ (a.operator = .oneOf ∨ a.operator = .between)

namespace NullSteps

variable {B : d.Binding} {null : N} {spares : Operator → Prop} (hd : NullSteps B null spares)

include hd

theorem exists_nodeFault? {o : Operator} {e : Element} (he : e.value = .null) (ho : ¬ spares o) :
    ∃ reason, d.nodeFault? config entity (.predicate o e) = some (.invalid reason) := by
  obtain ⟨name, v⟩ := e
  obtain rfl : v = .null := he
  simp only [nodeFault?, predicate]
  split
  · exact ⟨_, rfl⟩
  · have hnull : d.toNative ⟨entity, name⟩ .null = .ok null := hd.toNative_eq_null.mpr rfl
    have hlower (name path : String) : ∃ reason, error? (d.lower ⟨o, name, path, .single null⟩
        { style := d.style }) = some (.invalid reason) := by
      obtain ⟨reason, hreason⟩ : ∃ reason, d.lower ⟨o, name, path, .single null⟩
          { style := d.style } = .error (.invalid reason) := hd.lower_null ho
      exact ⟨reason, by rw [hreason]; rfl⟩
    cases o with
    | between | oneOf | like => exact ⟨_, rfl⟩
    | equals | greater | greaterOrEqual | less | lessOrEqual =>
      simp only [operand, hnull]
      exact hlower name _

theorem exists_fault? {v : Visit} (hv : v.MeetsNull spares) :
    ∃ reason, d.fault? config entity v = some (.invalid reason) := by
  cases v with
  | key c =>
    cases c with
    | predicate o e =>
      have hholds : e.value.holdsNull = true := hv
      refine ⟨.nullKey o e.name, ?_⟩
      simp only [fault?, Dialect.keys, hholds, if_true]
      rfl
    | join | not => cases hv
  | node c =>
    cases c with
    | predicate o e => exact hd.exists_nodeFault? hv.1 hv.2
    | join | not => cases hv

theorem notMem_of_forall₂ {scope : Scope} {items : List Value} {ns : List N}
    (h : List.Forall₂ (fun v n => d.toNative scope v = .ok n) items ns)
    (hitems : items.any Value.isNull = false) : null ∉ ns := by
  induction h with
  | nil => exact List.not_mem_nil
  | cons hv _ ih =>
    rw [List.any_cons, Bool.or_eq_false_iff] at hitems
    rw [List.mem_cons, not_or]
    refine ⟨?_, ih hitems.2⟩
    rintro rfl
    rw [hd.toNative_eq_null.mp hv] at hitems
    exact absurd hitems.1 (by decide)

theorem notMem_keys {c : Condition} {ns : List N} (h : d.keys config entity c = .ok ns) :
    null ∉ ns := by
  cases c with
  | join | not => cases h
  | predicate o e =>
    simp only [Dialect.keys] at h
    split at h
    · cases h
    · next hholds =>
      obtain ⟨p, hp, h⟩ := bind_eq_ok.mp h
      obtain ⟨-, x, hx, rfl⟩ := converts_of_predicate_eq_ok hp
      generalize e.value = v at hx hholds
      rw [Value.holdsNull, Bool.or_eq_true, not_or] at hholds
      have hsingle {n : N} (hn : d.toNative ⟨entity, e.name⟩ v = .ok n) : null ∉ [n] := by
        rw [List.mem_singleton]
        rintro rfl
        exact hholds.1 (Value.isNull_iff.mpr (hd.toNative_eq_null.mp hn))
      cases hx with
      | range => cases h
      | choice _ _ hns =>
        obtain rfl := pure_eq_ok.mp h
        exact hd.notMem_of_forall₂ hns (Bool.eq_false_iff.mpr hholds.2)
      | pattern hn =>
        obtain rfl := pure_eq_ok.mp h
        exact hsingle hn
      | value _ _ _ hn =>
        obtain rfl := pure_eq_ok.mp h
        exact hsingle hn

variable {q : Query} {s : Statement F N}

theorem not_meetsNull_of_compile (h : d.compile config q = .ok s) {c : Condition}
    (hq : q.condition = some c) {v : Visit} (hv : v ∈ d.visits config c) :
    ¬ v.MeetsNull spares := by
  intro hmeets
  obtain ⟨reason, hreason⟩ : ∃ reason, d.fault? config q.entity v = some (.invalid reason) :=
    hd.exists_fault? hmeets
  rw [hd.steady.fault?_of_compile hq h v hv] at hreason
  cases hreason

theorem spares_of_compile (h : d.compile config q = .ok s) {c : Condition}
    (hq : q.condition = some c) {a : Comparison Value} (ha : a ∈ c.formula.atoms)
    (hnull : a.value = .null) : spares a.operator := by
  obtain hkey | hnode := mem_visits ha
  · refine absurd ?_ (hd.not_meetsNull_of_compile h hq hkey)
    change a.value.holdsNull = true
    rw [hnull]
    rfl
  · by_contra hspares
    exact hd.not_meetsNull_of_compile h hq hnode ⟨hnull, hspares⟩

theorem exists_null_iff_of_bound {as : List (Comparison Value)} {us : List (Named N)}
    (h : List.Forall₂ (d.Bound B.translate entity) as us) :
    (∃ u ∈ us, u.value = null) ↔ ∃ a ∈ as, a.value = .null := by
  induction h with
  | nil => simp
  | @cons a u as us hu _ ih =>
    obtain ⟨n, hn, hnu⟩ := map_eq_ok.mp hu.2
    have hvalue : u.value = null ↔ a.value = .null := by
      rw [← hnu, hd.translate_eq_null, ← hd.toNative_eq_null, hn, Except.ok.injEq]
    simp only [List.exists_mem_cons_iff, hvalue, ih]

/-- An operand that is null and bound is an item of a choice or a bound of a range: were it all that
a predicate compares with, it would not have compiled. -/
theorem exists_null_operand_iff (h : d.compile config q = .ok s) :
    (∃ a ∈ (operandsOf (d.remainder config q.condition)).filter B.binds, a.value = .null) ↔
      ∃ a ∈ operandsOf (d.remainder config q.condition),
        a.value = .null ∧ (a.operator = .oneOf ∨ a.operator = .between) := by
  constructor
  · rintro ⟨a, ha, hnull⟩
    obtain ⟨ha, hbinds⟩ := List.mem_filter.mp ha
    refine ⟨a, ha, hnull, ?_⟩
    obtain ⟨rest, hrest, ha⟩ := List.mem_flatMap.mp ha
    obtain ⟨c, hq⟩ : ∃ c, q.condition = some c := by
      cases hq : q.condition with
      | none => rw [hq] at hrest; cases hrest
      | some c => exact ⟨c, rfl⟩
    rw [hq, Option.mem_toList] at hrest
    obtain ⟨x, hx, hax⟩ := List.mem_flatMap.mp ha
    obtain rfl | hlisted := Comparison.eq_or_of_mem_operands hax
    · by_contra
      refine hd.not_meetsNull_of_compile h hq (node_mem_visits hrest hx) ⟨hnull, fun hspares => ?_⟩
      exact hd.binds_iff.mp hbinds ⟨hspares, hnull⟩
    · exact hlisted
  · rintro ⟨a, ha, hnull, hlisted⟩
    refine ⟨a, List.mem_filter.mpr ⟨ha, hd.binds_iff.mpr ?_⟩, hnull⟩
    rintro ⟨hspares, -⟩
    rw [hd.equals_of_spares hspares] at hlisted
    obtain hlisted | hlisted := hlisted <;> cases hlisted

/-- **Whatever a query holds, null is kept out of it where it stands alone and where it is a key,
and nowhere else.** -/
theorem guardsNull (config : CompilerConfig) (q : Query) : d.GuardsNull null spares config q where
  reported hq hpaging hcheck _ _ _ hvisits hbefore hv := by
    obtain ⟨reason, hreason⟩ := hd.exists_fault? hv
    exact ⟨reason, hd.steady.compile_eq_error hq hpaging hcheck hvisits hbefore hreason⟩
  compiled h c hq a ha hnull := hd.spares_of_compile h hq ha hnull
  keys {s} h := by
    obtain ⟨l, hl, hs⟩ := exists_lowering_of_compile h
    rw [(hd.assemble hs).2]
    cases hl with
    | empty _ => exact List.not_mem_nil
    | whole _ _ _ => exact List.not_mem_nil
    | split _ _ hkeys _ => exact hd.notMem_keys hkeys
  parameters {s} h := by
    obtain ⟨l, hl, hs⟩ := exists_lowering_of_compile h
    obtain ⟨us, hus, hbound, -⟩ := B.exists_of_restLowered (restLowered_remainder hl).1
    calc (∃ p ∈ s.parameters, p.value = null)
        ↔ ∃ u ∈ us, u.value = null := by
          rw [(hd.assemble hs).1, hus, exists_mem_parametersFrom_iff]
      _ ↔ ∃ a ∈ (operandsOf (d.remainder config q.condition)).filter B.binds,
            a.value = .null := hd.exists_null_iff_of_bound hbound
      _ ↔ _ := hd.exists_null_operand_iff h

end NullSteps

end Dialect

end PortableQuery
