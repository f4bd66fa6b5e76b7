import PortableQuery.Proofs.Lowering.Operands
import PortableQuery.Proofs.Lowering.Refusal
import PortableQuery.Proofs.Number.Digits
import PortableQuery.Text.Name

set_option autoImplicit false

/-!
# Names that are not in use

Fields lose characters on the way into names and may themselves end in numbers, so names are not
told apart by their fields; but the ordinal is what stands behind the last underscore, and no
ordinal is used twice.
-/

namespace PortableQuery

/-! ## Names and ordinals -/

/-- What stands behind the last underscore. -/
def behindUnderscore (cs : List Char) : List Char := (cs.reverse.takeWhile (· ≠ '_')).reverse

theorem behindUnderscore_append (cs : List Char) {ds : List Char} (h : ∀ c ∈ ds, c ≠ '_') :
    behindUnderscore (cs ++ '_' :: ds) = ds := by
  have hds : ∀ c ∈ ds.reverse, decide (c ≠ '_') = true :=
    fun c hc => decide_eq_true (h c (List.mem_reverse.mp hc))
  rw [behindUnderscore, List.reverse_append, List.reverse_cons, List.append_assoc,
    List.takeWhile_append_of_pos hds, List.singleton_append, List.takeWhile_cons_of_neg (by simp),
    List.append_nil, List.reverse_reverse]

theorem ne_underscore_of_isDigit {c : Char} (h : c.isDigit = true) : c ≠ '_' := by
  rintro rfl
  exact absurd h (by decide)

/-- A letter of ASCII or an underscore, and nothing but letters, digits and underscores behind
it. -/
def isBindName (name : String) : Bool :=
  match name.toList with
  | c :: cs => (c.isAlpha || c == '_') && cs.all Text.isWordChar
  | [] => false

theorem isWordChar_nameChar (c : Char) : Text.isWordChar (nameChar c) = true := by
  unfold nameChar
  split
  · next h => simpa [Text.isWordChar] using h
  · rfl

/-- A name is the beginning of one, an underscore and the digits of its ordinal. -/
theorem exists_toList_parameterName (field : String) :
    ∃ c cs, (c.isAlpha || c == '_') = true ∧ cs.all Text.isWordChar = true ∧
      ∀ n, (parameterName field n).toList = c :: (cs ++ '_' :: (toString n).toList) := by
  have hword : (field.toList.map nameChar).all Text.isWordChar = true := by
    rw [List.all_map, List.all_eq_true]
    exact fun c _ => isWordChar_nameChar c
  unfold parameterName
  cases hbase : field.toList.map nameChar with
  | nil => exact ⟨'p', [], rfl, rfl, fun n => by simp⟩
  | cons c cs =>
    rw [hbase, List.all_cons, Bool.and_eq_true_iff] at hword
    obtain ⟨hc, hcs⟩ := hword
    by_cases hdigit : c.isDigit = true
    · refine ⟨'p', c :: cs, rfl, ?_, fun n => by simp [hdigit]⟩
      rw [List.all_cons, hc, hcs, Bool.and_self]
    · refine ⟨c, cs, ?_, hcs, fun n => by simp [hdigit]⟩
      simpa [Text.isWordChar, Char.isAlphanum, hdigit] using hc

/-- **The ordinal stands behind the last underscore.** -/
theorem behindUnderscore_parameterName (field : String) (n : Nat) :
    behindUnderscore (parameterName field n).toList = (toString n).toList := by
  obtain ⟨c, cs, -, -, hname⟩ := exists_toList_parameterName field
  rw [hname, ← List.cons_append]
  exact behindUnderscore_append _ fun d hd =>
    ne_underscore_of_isDigit (Digits.isDigit_of_mem_toString hd)

/-- **Names of different ordinals differ, whatever their fields are.** -/
theorem eq_of_parameterName_eq {f g : String} {m n : Nat}
    (h : parameterName f m = parameterName g n) : m = n := by
  have hdigits := congrArg (fun name : String => behindUnderscore name.toList) h
  simp only [behindUnderscore_parameterName] at hdigits
  rw [← Digits.value_toString m, hdigits, Digits.value_toString]

theorem underscore_mem_parameterName (field : String) (n : Nat) :
    '_' ∈ (parameterName field n).toList := by
  obtain ⟨c, cs, -, -, hname⟩ := exists_toList_parameterName field
  rw [hname]
  simp

theorem isBindName_parameterName (field : String) (n : Nat) :
    isBindName (parameterName field n) = true := by
  obtain ⟨c, cs, hc, hcs, hname⟩ := exists_toList_parameterName field
  have hdigits : (toString n).toList.all Text.isWordChar = true := by
    rw [List.all_eq_true]
    intro d hd
    simp [Text.isWordChar, Char.isAlphanum, Digits.isDigit_of_mem_toString hd]
  have hunderscore : Text.isWordChar '_' = true := rfl
  rw [isBindName, hname]
  simp only [hc, List.all_append, List.all_cons, hcs, hunderscore, hdigits, Bool.and_self]

/-! ## Binders of derived names -/

/-- The error is that of a name in use. -/
def QueryError.IsConflict (e : QueryError) : Prop := ∃ name, e = .bindingConflict name

theorem not_isConflict_invalid (reason : InvalidQuery) :
    ¬ (QueryError.invalid reason).IsConflict := by
  rintro ⟨_, h⟩
  cases h

theorem not_isConflict_unsupported (backend operation : String) :
    ¬ (QueryError.unsupported backend operation).IsConflict := by
  rintro ⟨_, h⟩
  cases h

theorem QueryError.IsConversion.not_isConflict {entity : String} {e : QueryError}
    (h : e.IsConversion entity) : ¬ e.IsConflict := by
  obtain ⟨field, fault, rfl⟩ := h
  rintro ⟨_, h⟩
  cases h

/-- Whatever the errors of the computation are, none is that of a name in use. -/
abbrev ConflictFree {α : Type} (x : Except QueryError α) : Prop := ErrsOnly (¬ ·.IsConflict) x

namespace Binder

variable {N : Type} {b : Binder N}

/-- Every name in use is derived from an ordinal that has passed. -/
def Derived (b : Binder N) : Prop :=
  ∀ p ∈ b.parameters, ∀ name ∈ p.name, ∃ field, ∃ n < b.nextOrdinal, name = parameterName field n

theorem derived_start (style : ParamStyle) (first : Nat) :
    ({ style := style, firstOrdinal := first } : Binder N).Derived :=
  List.forall_mem_nil _

theorem Derived.binds_eq_false (h : b.Derived) (field : String) :
    b.binds (parameterName field b.nextOrdinal) = false := by
  rw [binds, List.any_eq_false]
  intro p hp hname
  obtain ⟨field', n, hn, hsame⟩ := h p hp _ (beq_iff_eq.mp hname)
  exact absurd (eq_of_parameterName_eq hsame) (Nat.ne_of_gt hn)

theorem name_mem_parametersFrom {style : ParamStyle} {n : Nat} {us : List (Named N)}
    {p : Parameter N} (hp : p ∈ parametersFrom style n us) {name : String} (hname : name ∈ p.name) :
    ∃ field, ∃ m < n + us.length, name = parameterName field m := by
  rw [parametersFrom_eq_mapIdx] at hp
  obtain ⟨i, hi, rfl⟩ := List.mem_mapIdx.mp hp
  refine ⟨us[i].name, n + i, by omega, ?_⟩
  cases style with
  | named sigil => exact (Option.some.inj hname).symm
  | dollar | question | inline => cases hname

theorem Derived.extend (h : b.Derived) (us : List (Named N)) : (b.extend us).Derived := by
  intro p hp name hname
  rw [nextOrdinal_extend]
  rcases List.mem_append.mp hp with hp | hp
  · obtain ⟨field, n, hn, rfl⟩ := h p hp name hname
    exact ⟨field, n, by omega, rfl⟩
  · exact name_mem_parametersFrom hp hname

/-- **A binder of derived names takes every value.** -/
theorem bind_of_derived (h : b.Derived) (field : String) (v : N) :
    b.bind field v = .ok (b.style.placeholder field b.nextOrdinal, b.extend [⟨field, v⟩]) := by
  have hextend : b.extend [⟨field, v⟩] = b.push (b.style.name? field b.nextOrdinal) v := rfl
  rw [hextend, bind]
  cases hs : b.style with
  | dollar | question | inline => rfl
  | named sigil =>
    simp only [bindNamed, h.binds_eq_false field, Bool.false_eq_true, if_false, hs]
    rfl

/-- **It takes all values of a list.** -/
theorem bindAll_of_derived (h : b.Derived) (field : String) (vs : List N) :
    b.bindAll field vs = .ok
      (placeholdersFrom b.style b.nextOrdinal (vs.map (⟨field, ·⟩)),
        b.extend (vs.map (⟨field, ·⟩))) := by
  induction vs generalizing b with
  | nil => rw [bindAll, List.map_nil, extend_nil, placeholdersFrom]
  | cons v vs ih =>
    rw [bindAll, bind_of_derived h]
    simp only [Bind.bind, Except.bind, ih (h.extend _), pure, Except.pure]
    rw [extend_extend, extend_style, nextOrdinal_extend]
    rfl

end Binder

/-! ## Walks from such binders -/

section Walks

variable {N α β : Type}

/-- The computation never meets a name in use, and it leaves a binder of derived names. -/
structure BindsFreely (x : Except QueryError (α × Binder N)) : Prop where
  conflictFree : ConflictFree x
  derived {r : α × Binder N} (h : x = .ok r) : r.2.Derived

namespace BindsFreely

theorem ok {a : α} {b : Binder N} (h : b.Derived) :
    BindsFreely (.ok (a, b) : Except QueryError (α × Binder N)) := by
  refine ⟨.ok _, ?_⟩
  rintro _ ⟨⟩
  exact h

theorem error {e : QueryError} (h : ¬ e.IsConflict) :
    BindsFreely (.error e : Except QueryError (α × Binder N)) :=
  ⟨.error h, nofun⟩

theorem bind_of_conflictFree {x : Except QueryError α} {f : α → Except QueryError (β × Binder N)}
    (hx : ConflictFree x) (hf : ∀ a, x = .ok a → BindsFreely (f a)) : BindsFreely (x >>= f) := by
  refine ⟨ErrsOnly.bind hx fun a ha => (hf a ha).conflictFree, fun h => ?_⟩
  obtain ⟨a, ha, h⟩ := bind_eq_ok.mp h
  exact (hf a ha).derived h

theorem bind {x : Except QueryError (α × Binder N)}
    {f : α × Binder N → Except QueryError (β × Binder N)} (hx : BindsFreely x)
    (hf : ∀ r, r.2.Derived → BindsFreely (f r)) : BindsFreely (x >>= f) :=
  bind_of_conflictFree hx.conflictFree fun r hr => hf r (hx.derived hr)

end BindsFreely

theorem Binder.bindsFreely_bind {b : Binder N} (h : b.Derived) (field : String) (v : N) :
    BindsFreely (b.bind field v) := by
  rw [bind_of_derived h]
  exact .ok (h.extend _)

theorem Binder.bindsFreely_bindAll {b : Binder N} (h : b.Derived) (field : String) (vs : List N) :
    BindsFreely (b.bindAll field vs) := by
  rw [bindAll_of_derived h]
  exact .ok (h.extend _)

end Walks

namespace Dialect

variable {F N : Type} {d : Dialect (Except QueryError) F N} {config : CompilerConfig}
  {entity : String}

/-- The steps of a dialect meet no name in use if they start from derived names. -/
structure NamesFreely (d : Dialect (Except QueryError) F N) : Prop where
  toNative (scope : Scope) (v : Value) : ConflictFree (d.toNative scope v)
  lower (p : Predicate N) {b : Binder N} (h : b.Derived) : BindsFreely (d.lower p b)
  join (c : Connective) (fs : List F) : ConflictFree (d.join c fs)
  negate (f : F) : ConflictFree (d.negate f)

theorem shapeErrors_not_isConflict : ShapeErrors (¬ ·.IsConflict) :=
  ⟨fun _ => not_isConflict_invalid _, fun _ => not_isConflict_invalid _,
    fun _ => not_isConflict_invalid _, fun _ => not_isConflict_invalid _,
    fun _ => not_isConflict_invalid _, fun _ => not_isConflict_invalid _⟩

theorem bindsFreely_lowerAll {cs : List Condition}
    (hcs : ∀ c ∈ cs, ∀ {b : Binder N}, b.Derived →
      BindsFreely (d.lowerCondition config entity c b)) {b : Binder N} (h : b.Derived) :
    BindsFreely (d.lowerAll config entity cs b) := by
  induction cs generalizing b with
  | nil => exact .ok h
  | cons c cs ih =>
    rw [List.forall_mem_cons] at hcs
    exact (hcs.1 h).bind fun r hr => (ih hcs.2 hr).bind fun _ hr' => .ok hr'

namespace NamesFreely

variable (hd : d.NamesFreely)

include hd

/-- **A walk from derived names never meets a name in use.** -/
theorem bindsFreely_lowerCondition (c : Condition) {b : Binder N} (h : b.Derived) :
    BindsFreely (d.lowerCondition config entity c b) := by
  induction c using Condition.induct generalizing b with
  | predicate o e =>
    have hp : ConflictFree (d.predicate config entity o e) :=
      errsOnly_predicate shapeErrors_not_isConflict hd.toNative o e
    refine .bind_of_conflictFree hp fun p _ => ?_
    rw [ofExcept_eq]
    exact hd.lower p h
  | join c cs ih =>
    simp only [lowerCondition]
    split
    · exact .error (not_isConflict_invalid _)
    · exact (bindsFreely_lowerAll ih h).bind fun r hr =>
        .bind_of_conflictFree (hd.join c r.1).ofExcept fun _ _ => .ok hr
  | not c ih =>
    simp only [lowerCondition]
    exact (ih h).bind fun r hr => .bind_of_conflictFree (hd.negate r.1).ofExcept fun _ _ => .ok hr

theorem conflictFree_lowerRest (rest : List Condition) :
    ConflictFree (d.lowerRest config entity rest { style := d.style }) := by
  rw [lowerRest_eq]
  split
  · exact .ok _
  · exact (hd.bindsFreely_lowerCondition _ (Binder.derived_start _ 1)).conflictFree.map _

theorem conflictFree_lowerRoot (c : Condition) : ConflictFree (d.lowerRoot config entity c) := by
  unfold lowerRoot
  dsimp only
  split
  · next split hsplit =>
    obtain ⟨v, hv⟩ := (splitsAt_of_keySplit? hsplit).wants
    have hkeys : ConflictFree (d.keys config entity split.key) :=
      errsOnly_keys shapeErrors_not_isConflict hd.toNative (fun _ _ => not_isConflict_invalid _) hv
    exact hkeys.bind fun _ _ => (hd.conflictFree_lowerRest _).bind fun _ _ => .ok _
  · exact (hd.bindsFreely_lowerCondition c (Binder.derived_start _ 1)).conflictFree.bind
      fun _ _ => .ok _

/-- **Compiling never meets a name in use, if putting a statement together does not.** -/
theorem conflictFree_compile {q : Query}
    (hassemble : ∀ l, d.Lowering config q l → ConflictFree (d.assemble config q l)) :
    ConflictFree (d.compile config q) :=
  errsOnly_compile (not_isConflict_unsupported _) (fun c _ => hd.conflictFree_lowerRoot c) hassemble

end NamesFreely

end Dialect

end PortableQuery
