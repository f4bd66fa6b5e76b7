import Mathlib.Data.List.Forall2
import PortableQuery.Lowering.Compile
import PortableQuery.Proofs.Formula

set_option autoImplicit false

/-!
# What a successful walk has done

One walk over the condition serves every dialect, so what can be said about all of them is said
here: what each step of the walk has done if it succeeds, and, from that, how a property of single
steps becomes a property of whole walks.
-/

namespace PortableQuery

/-! ## Successful computations -/

section Outcome

variable {ε α β : Type}

theorem bind_eq_ok {x : Except ε α} {f : α → Except ε β} {b : β} :
    (x >>= f) = .ok b ↔ ∃ a, x = .ok a ∧ f a = .ok b := by
  cases x <;> simp [Bind.bind, Except.bind]

theorem pure_eq_ok {a b : α} : (pure a : Except ε α) = .ok b ↔ a = b := by
  simp [pure, Except.pure]

theorem bind_eq_error {x : Except ε α} {f : α → Except ε β} {e : ε} :
    (x >>= f) = .error e ↔ x = .error e ∨ ∃ a, x = .ok a ∧ f a = .error e := by
  cases x <;> simp [Bind.bind, Except.bind]

theorem throw_ne_ok {e : ε} {a : α} : (throw e : Except ε α) ≠ .ok a := nofun

theorem map_eq_ok {x : Except ε α} {f : α → β} {b : β} :
    x.map f = .ok b ↔ ∃ a, x = .ok a ∧ f a = b := by
  cases x <;> simp [Except.map]

theorem exists_map_eq_ok {x : Except ε α} {f : α → β} :
    (∃ b, x.map f = .ok b) ↔ ∃ a, x = .ok a := by
  cases x <;> simp [Except.map]

theorem ofExcept_eq (x : Except ε α) : (MonadExcept.ofExcept x : Except ε α) = x := by
  cases x <;> rfl

/-- **A traversal succeeds exactly if it does so at every item.** -/
theorem mapM_eq_ok {f : α → Except ε β} {xs : List α} {ys : List β} :
    xs.mapM f = .ok ys ↔ List.Forall₂ (fun x y => f x = .ok y) xs ys := by
  induction xs generalizing ys with
  | nil => cases ys <;> simp [pure_eq_ok]
  | cons x xs ih =>
    rw [List.mapM_cons, List.forall₂_cons_left_iff]
    simp only [bind_eq_ok, pure_eq_ok]
    constructor
    · rintro ⟨y, hy, ys', hys', rfl⟩
      exact ⟨y, ys', hy, ih.mp hys', rfl⟩
    · rintro ⟨y, ys', hy, hys', rfl⟩
      exact ⟨y, hy, ys', ih.mpr hys', rfl⟩

theorem exists_forall₂_iff {R : α → β → Prop} {xs : List α} :
    (∃ ys, List.Forall₂ R xs ys) ↔ ∀ x ∈ xs, ∃ y, R x y := by
  induction xs with
  | nil => exact iff_of_true ⟨[], .nil⟩ (List.forall_mem_nil _)
  | cons x xs ih =>
    rw [List.forall_mem_cons, ← ih]
    constructor
    · rintro ⟨_, hy | ⟨hy, hys⟩⟩
      exact ⟨⟨_, hy⟩, _, hys⟩
    · rintro ⟨⟨y, hy⟩, ys, hys⟩
      exact ⟨y :: ys, .cons hy hys⟩

theorem forall₂_imp_of_mem {R S : α → β → Prop} {xs : List α} {ys : List β}
    (hRS : ∀ x ∈ xs, ∀ y, R x y → S x y) (h : List.Forall₂ R xs ys) : List.Forall₂ S xs ys := by
  induction h with
  | nil => exact .nil
  | cons hx _ ih =>
    rw [List.forall_mem_cons] at hRS
    exact .cons (hRS.1 _ hx) (ih hRS.2)

theorem forall_of_forall₂ {R : α → β → Prop} {P : β → Prop} {xs : List α} {ys : List β}
    (h : List.Forall₂ R xs ys) (hRP : ∀ x ∈ xs, ∀ y, R x y → P y) : ∀ y ∈ ys, P y := by
  induction h with
  | nil => exact List.forall_mem_nil _
  | cons hx _ ih =>
    rw [List.forall_mem_cons] at hRP ⊢
    exact ⟨hRP.1 _ hx, ih hRP.2⟩

end Outcome

namespace Dialect

variable {F N : Type} {d : Dialect (Except QueryError) F N} {config : CompilerConfig}
  {entity : String}

/-! ## Predicates -/

variable (d) in
/-- The shapes that an operand may have: two bounds, at least one scalar, a text, or any value. -/
inductive Converts (scope : Scope) : Operator → Value → Operand N → Prop
  | range {lower upper : Value} {l u : N} : d.toNative scope lower = .ok l →
      d.toNative scope upper = .ok u → Converts scope .between (.list [lower, upper]) (.range l u)
  | choice {items : List Value} {ns : List N} : items ≠ [] → items.all Value.isScalar = true →
      List.Forall₂ (fun v n => d.toNative scope v = .ok n) items ns →
      Converts scope .oneOf (.list items) (.many ns)
  | pattern {s : String} {n : N} : d.toNative scope (.text s) = .ok n →
      Converts scope .like (.text s) (.single n)
  | value {o : Operator} {v : Value} {n : N} : o ≠ .between → o ≠ .oneOf → o ≠ .like →
      d.toNative scope v = .ok n → Converts scope o v (.single n)

theorem converts_of_operand_eq_ok {scope : Scope} {o : Operator} {v : Value} {x : Operand N}
    (h : d.operand scope o v = .ok x) : d.Converts scope o v x := by
  cases o with
  | between =>
    simp only [operand] at h
    split at h
    · next lower upper hv =>
      obtain rfl := Value.items?_eq_some.mp hv
      obtain ⟨l, hl, h⟩ := bind_eq_ok.mp h
      obtain ⟨u, hu, h⟩ := bind_eq_ok.mp h
      obtain rfl := pure_eq_ok.mp h
      exact .range hl hu
    · exact absurd h throw_ne_ok
  | oneOf =>
    simp only [operand] at h
    split at h
    · exact absurd h throw_ne_ok
    · exact absurd h throw_ne_ok
    · next item items hv =>
      obtain rfl := Value.items?_eq_some.mp hv
      split at h
      · next hs =>
        obtain ⟨ns, hns, h⟩ := bind_eq_ok.mp h
        obtain rfl := pure_eq_ok.mp h
        exact .choice (by simp) hs (mapM_eq_ok.mp hns)
      · exact absurd h throw_ne_ok
  | like =>
    simp only [operand] at h
    split at h
    · next s hv =>
      obtain rfl := Value.string?_eq_some.mp hv
      obtain ⟨n, hn, h⟩ := bind_eq_ok.mp h
      obtain rfl := pure_eq_ok.mp h
      exact .pattern hn
    · exact absurd h throw_ne_ok
  | equals | greater | greaterOrEqual | less | lessOrEqual =>
    obtain ⟨n, hn, h⟩ := bind_eq_ok.mp h
    obtain rfl := pure_eq_ok.mp h
    exact .value (by decide) (by decide) (by decide) hn

theorem Converts.operand_eq_ok {scope : Scope} {o : Operator} {v : Value} {x : Operand N}
    (h : d.Converts scope o v x) : d.operand scope o v = .ok x := by
  cases h with
  | range hl hu => exact bind_eq_ok.mpr ⟨_, hl, bind_eq_ok.mpr ⟨_, hu, rfl⟩⟩
  | @choice items ns hne hs hns =>
    cases items with
    | nil => exact absurd rfl hne
    | cons item items =>
      simp only [operand, Value.items?, if_pos hs]
      exact bind_eq_ok.mpr ⟨ns, mapM_eq_ok.mpr hns, rfl⟩
  | pattern hn => exact bind_eq_ok.mpr ⟨_, hn, rfl⟩
  | value hb hi hl hn => cases o <;> first | contradiction | exact bind_eq_ok.mpr ⟨_, hn, rfl⟩

/-- A predicate that is not refused names a field, and its operand is converted. -/
theorem converts_of_predicate_eq_ok {o : Operator} {e : Element} {p : Predicate N}
    (h : d.predicate config entity o e = .ok p) :
    e.name ≠ "" ∧ ∃ x, d.Converts ⟨entity, e.name⟩ o e.value x ∧
      p = ⟨o, e.name, d.field config e.name, x⟩ := by
  unfold predicate at h
  split at h
  · exact absurd h throw_ne_ok
  · next hn =>
    obtain ⟨x, hx, h⟩ := bind_eq_ok.mp h
    obtain rfl := pure_eq_ok.mp h
    exact ⟨by simpa using hn, x, converts_of_operand_eq_ok hx, rfl⟩

/-! ## The walk -/

/-- A relation holds of conditions lowered one after the other, each from where the one before it
has left the binder. -/
inductive Chain (R : Condition → Binder N → F → Binder N → Prop) :
    List Condition → Binder N → List F → Binder N → Prop
  | nil (b : Binder N) : Chain R [] b [] b
  | cons {c : Condition} {cs : List Condition} {b b' b'' : Binder N} {f : F} {fs : List F} :
      R c b f b' → Chain R cs b' fs b'' → Chain R (c :: cs) b (f :: fs) b''

theorem Chain.length_eq {R : Condition → Binder N → F → Binder N → Prop} {cs : List Condition}
    {b b' : Binder N} {fs : List F} (h : Chain R cs b fs b') : fs.length = cs.length := by
  induction h with
  | nil => rfl
  | cons _ _ ih => rw [List.length_cons, ih, List.length_cons]

theorem Chain.imp {R S : Condition → Binder N → F → Binder N → Prop} {cs : List Condition}
    {b b' : Binder N} {fs : List F} (h : Chain R cs b fs b')
    (hRS : ∀ c ∈ cs, ∀ b f b', R c b f b' → S c b f b') : Chain S cs b fs b' := by
  induction h with
  | nil b => exact .nil b
  | cons hc _ ih =>
    exact .cons (hRS _ (by simp) _ _ _ hc) (ih fun c hc => hRS c (List.mem_cons_of_mem _ hc))

theorem Chain.map_eq {α : Type} {g : F → α} {g' : Condition → α} {cs : List Condition}
    {b b' : Binder N} {fs : List F} (h : Chain (fun c _ f _ => g f = g' c) cs b fs b') :
    fs.map g = cs.map g' := by
  induction h with
  | nil => rfl
  | cons hc _ ih => rw [List.map_cons, List.map_cons, hc, ih]

theorem Chain.forall_mem {P : Condition → Prop} {cs : List Condition} {b b' : Binder N}
    {fs : List F} (h : Chain (fun c _ _ _ => P c) cs b fs b') : ∀ c ∈ cs, P c := by
  induction h with
  | nil => exact List.forall_mem_nil _
  | cons hc _ ih => exact List.forall_mem_cons.mpr ⟨hc, ih⟩

theorem Chain.exists_forall₂ {α : Type} {P : F → α → Prop} {Q : Condition → α → Prop}
    {cs : List Condition} {b b' : Binder N} {fs : List F}
    (h : Chain (fun c _ f _ => ∃ a, P f a ∧ Q c a) cs b fs b') :
    ∃ as, List.Forall₂ P fs as ∧ List.Forall₂ Q cs as := by
  induction h with
  | nil => exact ⟨[], .nil, .nil⟩
  | cons hc _ ih =>
    obtain ⟨a, hf, hc⟩ := hc
    obtain ⟨as, hfs, hcs⟩ := ih
    exact ⟨a :: as, .cons hf hfs, .cons hc hcs⟩

theorem chain_of_lowerAll {R : Condition → Binder N → F → Binder N → Prop} {cs : List Condition}
    (hR : ∀ c ∈ cs, ∀ b f b', d.lowerCondition config entity c b = .ok (f, b') → R c b f b') :
    ∀ {b fs b'}, d.lowerAll config entity cs b = .ok (fs, b') → Chain R cs b fs b' := by
  induction cs with
  | nil =>
    intro b fs b' h
    obtain ⟨rfl, rfl⟩ := Prod.mk.inj (pure_eq_ok.mp h)
    exact .nil b
  | cons c cs ih =>
    intro b fs b' h
    simp only [lowerAll] at h
    obtain ⟨⟨f, b₁⟩, hc, h⟩ := bind_eq_ok.mp h
    obtain ⟨⟨gs, b₂⟩, hcs, h⟩ := bind_eq_ok.mp h
    obtain ⟨rfl, rfl⟩ := Prod.mk.inj (pure_eq_ok.mp h)
    exact .cons (hR c (by simp) _ _ _ hc) (ih (fun x hx => hR x (List.mem_cons_of_mem _ hx)) hcs)

theorem lowerAll_of_chain {cs : List Condition} {b b' : Binder N} {fs : List F}
    (h : Chain (fun c b f b' => d.lowerCondition config entity c b = .ok (f, b')) cs b fs b') :
    d.lowerAll config entity cs b = .ok (fs, b') := by
  induction h with
  | nil => rfl
  | cons hc _ ih => exact bind_eq_ok.mpr ⟨_, hc, bind_eq_ok.mpr ⟨_, ih, rfl⟩⟩

/-- **What every step establishes holds of the whole walk.** -/
theorem lowerCondition_induct {R : Condition → Binder N → F → Binder N → Prop}
    (predicate : ∀ o e b p f b', d.predicate config entity o e = .ok p →
      d.lower p b = .ok (f, b') → R (.predicate o e) b f b')
    (join : ∀ c cs b fs b' f, cs ≠ [] → Chain R cs b fs b' → d.join c fs = .ok f →
      R (.join c cs) b f b')
    (not : ∀ c b f b' g, R c b f b' → d.negate f = .ok g → R (.not c) b g b')
    {c : Condition} {b : Binder N} {f : F} {b' : Binder N}
    (h : d.lowerCondition config entity c b = .ok (f, b')) : R c b f b' := by
  induction c using Condition.induct generalizing b f b' with
  | predicate o e =>
    obtain ⟨p, hp, h⟩ := bind_eq_ok.mp h
    rw [ofExcept_eq] at h
    exact predicate o e b p f b' hp h
  | join c cs ih =>
    simp only [lowerCondition] at h
    split at h
    · exact absurd h throw_ne_ok
    · next hne =>
      obtain ⟨⟨fs, b₁⟩, hcs, h⟩ := bind_eq_ok.mp h
      obtain ⟨g, hg, h⟩ := bind_eq_ok.mp h
      obtain ⟨rfl, rfl⟩ := Prod.mk.inj (pure_eq_ok.mp h)
      rw [ofExcept_eq] at hg
      exact join c cs b fs b₁ g (by simpa using hne)
        (chain_of_lowerAll (fun x hx b f b' h => ih x hx h) hcs) hg
  | not c ih =>
    simp only [lowerCondition] at h
    obtain ⟨⟨g, b₁⟩, hc, h⟩ := bind_eq_ok.mp h
    obtain ⟨k, hk, h⟩ := bind_eq_ok.mp h
    obtain ⟨rfl, rfl⟩ := Prod.mk.inj (pure_eq_ok.mp h)
    rw [ofExcept_eq] at hk
    exact not c b g b₁ k (ih hc) hk

end Dialect

/-! ## Whole queries -/

/-- What is left of a root conjunction, as one condition. -/
def residual : List Condition → Option Condition
  | [] => none
  | [c] => some c
  | cs => some (.join .and cs)

namespace Dialect

variable {F N : Type} {d : Dialect (Except QueryError) F N} {config : CompilerConfig}
  {entity : String}

theorem lowerRest_eq (rest : List Condition) (b : Binder N) :
    d.lowerRest config entity rest b = match residual rest with
      | none => .ok (none, b)
      | some c => (d.lowerCondition config entity c b).map fun (f, b) => (some f, b) := by
  match rest with
  | [] => rfl
  | [c] =>
    simp only [lowerRest, residual]
    cases d.lowerCondition config entity c b <;> rfl
  | c :: c' :: cs =>
    simp only [lowerRest, residual, lowerCondition]
    cases d.lowerAll config entity (c :: c' :: cs) b with
    | error e => rfl
    | ok r =>
      obtain ⟨fs, b₁⟩ := r
      cases hj : d.join .and fs <;> simp [bind, Except.bind, pure, Except.pure, hj] <;> rfl

variable (d config) in
/-- What a query is lowered to: nothing, the whole condition, or its keys and the filter of the
conditions beside them. -/
inductive Lowering (q : Query) : Lowered F N → Prop
  | empty : q.condition = none → Lowering q .empty
  | whole {c : Condition} {f : F} {b : Binder N} : q.condition = some c →
      d.keySplit? config c = none →
      d.lowerCondition config q.entity c { style := d.style } = .ok (f, b) →
      Lowering q ⟨some f, b.parameters, []⟩
  | split {c : Condition} {split : KeySplit} {keys : List N} {filter : Option F} {b : Binder N} :
      q.condition = some c → d.keySplit? config c = some split →
      d.keys config q.entity split.key = .ok keys →
      d.lowerRest config q.entity split.rest { style := d.style } = .ok (filter, b) →
      Lowering q ⟨filter, b.parameters, keys⟩

theorem lowering_of_lowerRoot {q : Query} {c : Condition} {l : Lowered F N}
    (hq : q.condition = some c) (h : d.lowerRoot config q.entity c = .ok l) :
    d.Lowering config q l := by
  simp only [lowerRoot] at h
  split at h
  · next split hs =>
    obtain ⟨keys, hk, h⟩ := bind_eq_ok.mp h
    obtain ⟨⟨filter, b⟩, hr, h⟩ := bind_eq_ok.mp h
    obtain rfl := pure_eq_ok.mp h
    exact .split hq hs hk hr
  · next hs =>
    obtain ⟨⟨f, b⟩, hc, h⟩ := bind_eq_ok.mp h
    obtain rfl := pure_eq_ok.mp h
    exact .whole hq hs hc

/-- **A compiled statement is assembled from the lowering of its query.** -/
theorem exists_lowering_of_compile {q : Query} {s : Statement F N}
    (h : d.compile config q = .ok s) :
    ∃ l, d.Lowering config q l ∧ d.assemble config q l = .ok s := by
  unfold compile at h
  dsimp only at h
  split at h
  · exact absurd h throw_ne_ok
  · split at h
    · next c hq =>
      obtain ⟨_, _, h⟩ := bind_eq_ok.mp h
      obtain ⟨l, hl, h⟩ := bind_eq_ok.mp h
      rw [ofExcept_eq] at h
      exact ⟨l, lowering_of_lowerRoot hq hl, h⟩
    · next hq =>
      obtain ⟨l, hl, h⟩ := bind_eq_ok.mp h
      obtain rfl := pure_eq_ok.mp hl
      rw [ofExcept_eq] at h
      exact ⟨_, .empty hq, h⟩

/-- **What is compiled can be expressed.** -/
theorem firstUnsupported_of_compile {q : Query} {c : Condition} {s : Statement F N}
    (hq : q.condition = some c) (h : d.compile config q = .ok s) :
    d.capabilities.firstUnsupported c = none := by
  unfold compile at h
  dsimp only at h
  split at h
  · exact absurd h throw_ne_ok
  · rw [hq] at h
    obtain ⟨_, hcheck, -⟩ := bind_eq_ok.mp h
    rw [ofExcept_eq, Capabilities.check] at hcheck
    split at hcheck
    · cases hcheck
    · next hnone => exact hnone

end Dialect

/-! ## Capabilities -/

namespace Capabilities

theorem firstUnsupportedOf_eq_none {k : Capabilities} {cs : List Condition} :
    k.firstUnsupportedOf cs = none ↔ ∀ c ∈ cs, k.firstUnsupported c = none := by
  induction cs with
  | nil => simp [firstUnsupportedOf]
  | cons c cs ih =>
    rw [firstUnsupportedOf, List.forall_mem_cons, ← ih]
    cases k.firstUnsupported c <;> simp

theorem firstUnsupported_of_join {k : Capabilities} {connective : Connective} {cs : List Condition}
    (h : k.firstUnsupported (.join connective cs) = none) :
    ∀ c ∈ cs, k.firstUnsupported c = none := by
  rw [firstUnsupported] at h
  split at h
  · exact firstUnsupportedOf_eq_none.mp h
  · cases h

theorem exists_predicate_of_not {k : Capabilities} {c : Condition}
    (hk : k.negation = .predicates) (h : k.firstUnsupported (.not c) = none) :
    ∃ o e, c = .predicate o e := by
  cases c with
  | predicate o e => exact ⟨o, e, rfl⟩
  | join | not => simp [firstUnsupported, badNegation, hk] at h

end Capabilities

end PortableQuery
