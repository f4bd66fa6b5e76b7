import PortableQuery.Proofs.Lowering.Failure

set_option autoImplicit false

/-!
# Refusing before lowering

A store refuses what it cannot express before anything is lowered: its way of paging comes first,
the nodes of the condition next. Joins and negations can refuse, too, but what gets that far is
never refused there.
-/

namespace PortableQuery

/-- The error is one for want of support. -/
def QueryError.IsRefusal (e : QueryError) : Prop :=
  ∃ backend operation, e = .unsupported backend operation

/-- The computation is not refused: whatever its errors are, none is for want of support. -/
abbrev NotRefused {α : Type} (x : Except QueryError α) : Prop := ErrsOnly (¬ ·.IsRefusal) x

theorem not_isRefusal_invalid (reason : InvalidQuery) :
    ¬ (QueryError.invalid reason).IsRefusal := by
  rintro ⟨_, _, h⟩
  cases h

theorem not_isRefusal_conversion (entity field : String) (fault : ConversionFault) :
    ¬ (QueryError.conversion entity field fault).IsRefusal := by
  rintro ⟨_, _, h⟩
  cases h

theorem not_isRefusal_bindingConflict (name : String) :
    ¬ (QueryError.bindingConflict name).IsRefusal := by
  rintro ⟨_, _, h⟩
  cases h

theorem NotRefused.ne {α : Type} {x : Except QueryError α} (h : NotRefused x)
    (backend operation : String) : x ≠ .error (.unsupported backend operation) :=
  fun hx => h _ hx ⟨backend, operation, rfl⟩

namespace Dialect

variable {F N : Type} {d : Dialect (Except QueryError) F N} {config : CompilerConfig} {q : Query}

/-! ## What is refused -/

/-- A query is refused for its skipped rows where the store pages by cursor, for its cursor where it
pages by offset, and else for the first node of its condition that the store cannot express. -/
inductive Refuses (d : Dialect (Except QueryError) F N) (q : Query) : String → Prop
  | skip (hd : d.capabilities.paging = .cursor) (hq : 0 < q.skip) : Refuses d q "skip"
  | cursor (hd : d.capabilities.paging = .offset) (hq : q.cursor ≠ none) : Refuses d q "cursor"
  | node {c : Condition} {operation : String} (hskip : d.capabilities.paging = .cursor → q.skip = 0)
    (hcursor : d.capabilities.paging = .offset → q.cursor = none) (hq : q.condition = some c)
    (hc : d.capabilities.FirstLacks c operation) : Refuses d q operation

/-- The steps of a dialect refuse nothing that passes its check. -/
structure RefusesUpFront (d : Dialect (Except QueryError) F N) : Prop where
  toNative (scope : Scope) (v : Value) : NotRefused (d.toNative scope v)
  lower (p : Predicate N) (b : Binder N) : NotRefused (d.lower p b)
  join {c : Connective} (fs : List F) (hc : d.capabilities.joins c = true) :
    NotRefused (d.join c fs)
  negate {config : CompilerConfig} {entity : String} {c : Condition} {b b' : Binder N} {f : F}
    (hc : d.capabilities.badNegation c = none)
    (hf : d.lowerCondition config entity c b = .ok (f, b')) : NotRefused (d.negate f)
  assemble (config : CompilerConfig) (q : Query) (l : Lowered F N) :
    NotRefused (d.assemble config q l)

theorem shapeErrors_not_isRefusal : ShapeErrors (¬ ·.IsRefusal) :=
  ⟨fun _ => not_isRefusal_invalid _, fun _ => not_isRefusal_invalid _,
    fun _ => not_isRefusal_invalid _, fun _ => not_isRefusal_invalid _,
    fun _ => not_isRefusal_invalid _, fun _ => not_isRefusal_invalid _⟩

theorem refuses_iff_of_badPaging {bad operation : String} (h : d.badPaging q = some bad) :
    d.Refuses q operation ↔ operation = bad := by
  rw [badPaging] at h
  cases hk : d.capabilities.paging with
  | cursor =>
    rw [hk] at h
    obtain ⟨hskip, rfl⟩ : 0 < q.skip ∧ "skip" = bad := by simpa using h
    constructor
    · rintro (_ | ⟨hd, -⟩ | ⟨hskip', -, -, -⟩)
      · rfl
      · rw [hk] at hd
        cases hd
      · rw [hskip' hk] at hskip
        exact absurd hskip (by decide)
    · rintro rfl
      exact .skip hk hskip
  | offset =>
    rw [hk] at h
    obtain ⟨hcursor, rfl⟩ : q.cursor ≠ none ∧ "cursor" = bad := by
      simpa [Option.isSome_iff_ne_none] using h
    constructor
    · rintro (⟨hd, -⟩ | _ | ⟨-, hcursor', -, -⟩)
      · rw [hk] at hd
        cases hd
      · rfl
      · exact absurd (hcursor' hk) hcursor
    · rintro rfl
      exact .cursor hk hcursor

theorem refuses_iff_of_not_badPaging {operation : String} (h : d.badPaging q = none) :
    d.Refuses q operation ↔
      ∃ c, q.condition = some c ∧ d.capabilities.firstUnsupported c = some operation := by
  simp only [Capabilities.firstUnsupported_eq_some_iff]
  rw [badPaging] at h
  have hskip (hk : d.capabilities.paging = .cursor) : q.skip = 0 := by simpa [hk] using h
  have hcursor (hk : d.capabilities.paging = .offset) : q.cursor = none := by simpa [hk] using h
  constructor
  · rintro (⟨hk, hq⟩ | ⟨hk, hq⟩ | ⟨-, -, hq, hc⟩)
    · rw [hskip hk] at hq
      exact absurd hq (by decide)
    · exact absurd (hcursor hk) hq
    · exact ⟨_, hq, hc⟩
  · rintro ⟨c, hq, hc⟩
    exact .node hskip hcursor hq hc

/-- What a query is compiled to, stage by stage: paging, check, lowering, assembly. -/
theorem compile_eq (d : Dialect (Except QueryError) F N) (config : CompilerConfig) (q : Query) :
    d.compile config q = match d.badPaging q with
      | some operation => .error (.unsupported d.name operation)
      | none => match q.condition with
        | none => d.assemble config q .empty
        | some c => match d.capabilities.firstUnsupported c with
          | some operation => .error (.unsupported d.name operation)
          | none => d.lowerRoot config q.entity c >>= d.assemble config q := by
  unfold compile
  cases d.badPaging q with
  | some operation => rfl
  | none =>
    cases q.condition with
    | none => exact ofExcept_eq _
    | some c =>
      dsimp only
      rw [Capabilities.check]
      cases d.capabilities.firstUnsupported c with
      | some operation => rfl
      | none =>
        show (d.lowerRoot config q.entity c >>= fun l =>
          MonadExcept.ofExcept (d.assemble config q l)) = _
        simp only [ofExcept_eq]

/-- What holds of all errors of lowering and of assembling holds of all errors of compiling, but for
what is refused. -/
theorem errsOnly_compile {P : QueryError → Prop}
    (hrefused : ∀ operation, P (.unsupported d.name operation))
    (hlower : ∀ c, d.capabilities.firstUnsupported c = none →
      ErrsOnly P (d.lowerRoot config q.entity c))
    (hassemble : ∀ l, d.Lowering config q l → ErrsOnly P (d.assemble config q l)) :
    ErrsOnly P (d.compile config q) := by
  rw [compile_eq]
  cases d.badPaging q with
  | some operation => exact .error (hrefused _)
  | none =>
    cases hq : q.condition with
    | none => exact hassemble _ (.empty hq)
    | some c =>
      dsimp only
      cases hc : d.capabilities.firstUnsupported c with
      | some operation => exact .error (hrefused _)
      | none =>
        exact (hlower c hc).bind fun l hl => hassemble l (lowering_of_lowerRoot hq hl)

/-- Queries that are assembled to statements which `f` takes to one another, and are otherwise
alike, are compiled to such statements. -/
theorem compile_eq_map {q' : Query} (f : Statement F N → Statement F N)
    (hpaging : d.badPaging q' = d.badPaging q) (hcondition : q'.condition = q.condition)
    (hentity : q'.entity = q.entity)
    (hassemble : ∀ l, d.assemble config q' l = (d.assemble config q l).map f) :
    d.compile config q' = (d.compile config q).map f := by
  rw [compile_eq, compile_eq, hpaging, hcondition, hentity, funext hassemble]
  cases d.badPaging q with
  | some operation => rfl
  | none =>
    cases q.condition with
    | none => rfl
    | some c =>
      dsimp only
      cases d.capabilities.firstUnsupported c with
      | some operation => rfl
      | none =>
        dsimp only
        cases d.lowerRoot config q.entity c <;> rfl

namespace RefusesUpFront

variable (hd : d.RefusesUpFront)

include hd

theorem stepErrors (config : CompilerConfig) (entity : String) :
    d.StepErrors config entity (¬ ·.IsRefusal) where
  emptyJoin _ := not_isRefusal_invalid _
  predicate := errsOnly_predicate shapeErrors_not_isRefusal hd.toNative
  lower b _ _ := hd.lower _ b
  join := hd.join
  negate := hd.negate

theorem notRefused_lowerRoot {c : Condition} (hc : d.capabilities.firstUnsupported c = none)
    (config : CompilerConfig) (entity : String) : NotRefused (d.lowerRoot config entity c) :=
  errsOnly_lowerRoot (hd.stepErrors config entity)
    (errsOnly_keys shapeErrors_not_isRefusal hd.toNative fun _ _ => not_isRefusal_invalid _) hc

/-- **A query is refused for its way of paging or for the first node that the store cannot express,
and for nothing else, whatever else is wrong with it.** -/
theorem compile_eq_unsupported_iff {backend operation : String} :
    d.compile config q = .error (.unsupported backend operation) ↔
      backend = d.name ∧ d.Refuses q operation := by
  rw [compile_eq]
  cases hbad : d.badPaging q with
  | some bad =>
    rw [refuses_iff_of_badPaging hbad]
    simp [eq_comm]
  | none =>
    rw [refuses_iff_of_not_badPaging hbad]
    cases hq : q.condition with
    | none => simpa using (hd.assemble config q .empty).ne backend operation
    | some c =>
      cases hc : d.capabilities.firstUnsupported c with
      | some bad => simp [hc, eq_comm]
      | none =>
        have hlowered : NotRefused (d.lowerRoot config q.entity c >>= d.assemble config q) :=
          (hd.notRefused_lowerRoot hc config q.entity).bind fun l _ => hd.assemble config q l
        simpa [hc] using hlowered.ne backend operation

end RefusesUpFront

/-! ## What is never reached -/

theorem bind_congr_of_ok {ε α β : Type} {x : Except ε α} {f g : α → Except ε β}
    (h : ∀ a, x = .ok a → f a = g a) : x >>= f = x >>= g := by
  cases x with
  | ok a => exact h a rfl
  | error e => rfl

/-- The computation, or another one where it is refused. -/
def insteadOfRefusal {α : Type} (x y : Except QueryError α) : Except QueryError α :=
  match x with
  | .error (.unsupported _ _) => y
  | x => x

theorem insteadOfRefusal_eq {α : Type} {x : Except QueryError α} (h : NotRefused x)
    (y : Except QueryError α) : insteadOfRefusal x y = x := by
  unfold insteadOfRefusal
  split
  · exact absurd rfl (h.ne _ _)
  · rfl

/-- The dialect with joins and negations that do something else where they are refused. -/
def unlessRefused (d : Dialect (Except QueryError) F N)
    (join : Connective → List F → Except QueryError F) (negate : F → Except QueryError F) :
    Dialect (Except QueryError) F N :=
  { d with
    join := fun c fs => insteadOfRefusal (d.join c fs) (join c fs)
    negate := fun f => insteadOfRefusal (d.negate f) (negate f) }

namespace RefusesUpFront

variable (hd : d.RefusesUpFront) (join : Connective → List F → Except QueryError F)
  (negate : F → Except QueryError F)

theorem lowerAll_unlessRefused {entity : String} {cs : List Condition}
    (hcs : ∀ c ∈ cs, ∀ b, (d.unlessRefused join negate).lowerCondition config entity c b =
      d.lowerCondition config entity c b) (b : Binder N) :
    (d.unlessRefused join negate).lowerAll config entity cs b =
      d.lowerAll config entity cs b := by
  induction cs generalizing b with
  | nil => rfl
  | cons c cs ih =>
    rw [List.forall_mem_cons] at hcs
    simp only [lowerAll, hcs.1, ih hcs.2]

include hd

theorem lowerCondition_unlessRefused {entity : String} {c : Condition}
    (hc : d.capabilities.firstUnsupported c = none) (b : Binder N) :
    (d.unlessRefused join negate).lowerCondition config entity c b =
      d.lowerCondition config entity c b := by
  induction c using Condition.induct generalizing b with
  | predicate o e => rfl
  | join c cs ih =>
    obtain ⟨hjoins, hcs⟩ := Capabilities.firstUnsupported_join_eq_none.mp hc
    have hjoin (fs : List F) : (d.unlessRefused join negate).join c fs = d.join c fs :=
      insteadOfRefusal_eq (hd.join fs hjoins) _
    simp only [lowerCondition, hjoin,
      lowerAll_unlessRefused join negate fun x hx b => ih x hx (hcs x hx) b]
  | not c ih =>
    obtain ⟨hnegation, hchild⟩ := Capabilities.firstUnsupported_not_eq_none.mp hc
    simp only [lowerCondition, ih hchild]
    refine bind_congr_of_ok fun r hr => ?_
    have hnegate : (d.unlessRefused join negate).negate r.1 = d.negate r.1 :=
      insteadOfRefusal_eq (hd.negate hnegation hr) _
    rw [hnegate]

theorem lowerRest_unlessRefused {entity : String} {rest : List Condition}
    (hrest : ∀ c ∈ residual rest, d.capabilities.firstUnsupported c = none) (b : Binder N) :
    (d.unlessRefused join negate).lowerRest config entity rest b =
      d.lowerRest config entity rest b := by
  rw [lowerRest_eq, lowerRest_eq]
  cases hc : residual rest with
  | none => rfl
  | some c =>
    dsimp only
    rw [hd.lowerCondition_unlessRefused join negate (hrest c hc)]

theorem lowerRoot_unlessRefused {entity : String} {c : Condition}
    (hc : d.capabilities.firstUnsupported c = none) :
    (d.unlessRefused join negate).lowerRoot config entity c = d.lowerRoot config entity c := by
  have hsplit : (d.unlessRefused join negate).keySplit? config c = d.keySplit? config c := rfl
  simp only [lowerRoot, hsplit]
  cases hs : d.keySplit? config c with
  | none => rw [hd.lowerCondition_unlessRefused join negate hc]; rfl
  | some split =>
    dsimp only
    rw [hd.lowerRest_unlessRefused join negate (firstUnsupported_of_keySplit? hs hc)]
    rfl

/-- **No query is compiled through a join or a negation that refuses.** -/
theorem compile_unlessRefused :
    (d.unlessRefused join negate).compile config q = d.compile config q := by
  rw [compile_eq, compile_eq]
  have hpaging : (d.unlessRefused join negate).badPaging q = d.badPaging q := rfl
  rw [hpaging]
  cases d.badPaging q with
  | some bad => rfl
  | none =>
    cases q.condition with
    | none => rfl
    | some c =>
      dsimp only
      have hcheck : (d.unlessRefused join negate).capabilities = d.capabilities := rfl
      rw [hcheck]
      cases hc : d.capabilities.firstUnsupported c with
      | some bad => rfl
      | none =>
        dsimp only
        rw [hd.lowerRoot_unlessRefused join negate hc]
        rfl

end RefusesUpFront

variable (d config q) in
/-- How a query is refused, and that nothing else refuses it. -/
structure RefusesExactly : Prop where
  compile_eq_unsupported_iff (backend operation : String) :
    d.compile config q = .error (.unsupported backend operation) ↔
      backend = d.name ∧ d.Refuses q operation
  compile_unlessRefused (join : Connective → List F → Except QueryError F)
    (negate : F → Except QueryError F) :
    (d.unlessRefused join negate).compile config q = d.compile config q

/-- **A dialect whose steps refuse nothing that passes the check refuses what it should.** -/
theorem RefusesUpFront.refusesExactly (hd : d.RefusesUpFront) (config : CompilerConfig)
    (q : Query) : d.RefusesExactly config q :=
  ⟨fun _ _ => hd.compile_eq_unsupported_iff, hd.compile_unlessRefused⟩

end Dialect

end PortableQuery
