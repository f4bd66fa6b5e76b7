import PortableQuery.Proofs.Lowering.Walk

set_option autoImplicit false

/-!
# What a store lacks

A condition is checked as a whole before it is lowered. The check looks at one node after the other,
each for itself, and stops at the first one that the store cannot express.
-/

namespace PortableQuery

/-! ## Nodes in order -/

namespace Condition

mutual

/-- The nodes of a condition, parents before children and children from left to right. -/
def preorder : Condition → List Condition
  | predicate o e => [predicate o e]
  | join c cs => join c cs :: preorderAll cs
  | not c => not c :: preorder c
termination_by structural c => c

/-- The nodes of several conditions. -/
def preorderAll : List Condition → List Condition
  | [] => []
  | c :: cs => preorder c ++ preorderAll cs
termination_by structural cs => cs

end

theorem preorderAll_eq_flatMap (cs : List Condition) : preorderAll cs = cs.flatMap preorder := by
  induction cs with
  | nil => rfl
  | cons c cs ih => rw [preorderAll, ih, List.flatMap_cons]

@[simp] theorem preorder_predicate (o : Operator) (e : Element) :
    (predicate o e).preorder = [predicate o e] := rfl

@[simp] theorem preorder_join (c : Connective) (cs : List Condition) :
    (join c cs).preorder = join c cs :: cs.flatMap preorder := by
  rw [preorder, preorderAll_eq_flatMap]

@[simp] theorem preorder_not (c : Condition) : (not c).preorder = not c :: c.preorder := rfl

end Condition

namespace Capabilities

variable {k : Capabilities}

/-! ## Single nodes -/

/-- The node is more than the store can express, and this is what it is called. -/
inductive Lacks (k : Capabilities) : Condition → String → Prop
  | operator {o : Operator} {e : Element} (h : o ∉ k.operators) : Lacks k (.predicate o e) o.name
  | and {cs : List Condition} (h : k.and = false) : Lacks k (.join .and cs) "AND"
  | or {cs : List Condition} (h : k.or = false) : Lacks k (.join .or cs) "OR"
  | negation {c : Condition} (h : k.negation = .unsupported) : Lacks k (.not c) "NOT"
  /-- Only predicates can be negated, and something else is. -/
  | negationOf {c : Condition} (h : k.negation = .predicates) (hc : ∀ o e, c ≠ .predicate o e) :
    Lacks k (.not c) ("NOT(" ++ c.kind.name ++ ")")

/-- What the store lacks at a node, if it lacks anything. -/
def lacking? (k : Capabilities) : Condition → Option String
  | .predicate o _ => if o ∈ k.operators then none else some o.name
  | .join c _ => if k.joins c then none else some c.name
  | .not c => k.badNegation c

theorem badNegation_eq_some {c : Condition} {operation : String} :
    k.badNegation c = some operation ↔ k.Lacks (.not c) operation := by
  constructor
  · intro h
    unfold badNegation at h
    split at h
    · next hk =>
      obtain rfl := Option.some.inj h
      exact .negation hk
    · cases h
    · next hk hc =>
      obtain rfl := Option.some.inj h
      exact .negationOf hk hc
    · cases h
  · intro h
    cases h with
    | negation hk => simp only [badNegation, hk]
    | negationOf hk hc =>
      cases c with
      | predicate o e => exact absurd rfl (hc o e)
      | join | not => simp only [badNegation, hk]

theorem lacking?_eq_some {c : Condition} {operation : String} :
    k.lacking? c = some operation ↔ k.Lacks c operation := by
  cases c with
  | predicate o e =>
    rw [lacking?]
    constructor
    · intro h
      split at h
      · cases h
      · next ho =>
        obtain rfl := Option.some.inj h
        exact .operator ho
    · rintro ⟨ho⟩
      exact if_neg ho
  | join c cs =>
    rw [lacking?]
    constructor
    · intro h
      split at h
      · cases h
      · next hc =>
        obtain rfl := Option.some.inj h
        rw [Bool.not_eq_true] at hc
        cases c with
        | and => exact .and hc
        | or => exact .or hc
    · intro h
      cases h with
      | and h | or h => simp [joins, h, Connective.name]
  | not c => exact badNegation_eq_some

theorem lacking?_eq_none {c : Condition} :
    k.lacking? c = none ↔ ∀ operation, ¬ k.Lacks c operation := by
  rw [Option.eq_none_iff_forall_ne_some]
  exact forall_congr' fun operation => not_congr lacking?_eq_some

/-! ## Whole conditions -/

/-- A node of the condition is more than the store can express, and none before it is. -/
def FirstLacks (k : Capabilities) (c : Condition) (operation : String) : Prop :=
  ∃ before node behind, c.preorder = before ++ node :: behind ∧
    (∀ x ∈ before, ∀ operation, ¬ k.Lacks x operation) ∧ k.Lacks node operation

theorem firstUnsupportedOf_eq_findSome? {k : Capabilities} {cs : List Condition}
    (h : ∀ c ∈ cs, k.firstUnsupported c = c.preorder.findSome? k.lacking?) :
    k.firstUnsupportedOf cs = (cs.flatMap Condition.preorder).findSome? k.lacking? := by
  induction cs with
  | nil => rfl
  | cons c cs ih =>
    rw [List.forall_mem_cons] at h
    rw [firstUnsupportedOf, h.1, ih h.2, List.flatMap_cons, List.findSome?_append]
    cases c.preorder.findSome? k.lacking? <;> rfl

/-- **The check goes through the nodes in their order.** -/
theorem firstUnsupported_eq_findSome? (k : Capabilities) (c : Condition) :
    k.firstUnsupported c = c.preorder.findSome? k.lacking? := by
  induction c using Condition.induct with
  | predicate o e =>
    rw [Condition.preorder_predicate, List.findSome?_singleton]
    rfl
  | join c cs ih =>
    rw [firstUnsupported, firstUnsupportedOf_eq_findSome? ih, Condition.preorder_join,
      List.findSome?_cons, lacking?]
    cases k.joins c <;> rfl
  | not c ih =>
    rw [firstUnsupported, Condition.preorder_not, List.findSome?_cons, lacking?, ← ih]
    cases k.badNegation c <;> rfl

theorem firstUnsupported_eq_some_iff {c : Condition} {operation : String} :
    k.firstUnsupported c = some operation ↔ k.FirstLacks c operation := by
  simp only [firstUnsupported_eq_findSome?, List.findSome?_eq_some_iff, lacking?_eq_some,
    lacking?_eq_none, FirstLacks, and_comm, and_left_comm]

theorem firstUnsupported_eq_none_iff {c : Condition} :
    k.firstUnsupported c = none ↔ ∀ x ∈ c.preorder, ∀ operation, ¬ k.Lacks x operation := by
  simp only [firstUnsupported_eq_findSome?, List.findSome?_eq_none_iff, lacking?_eq_none]

theorem firstUnsupported_predicate_eq_none {o : Operator} {e : Element} :
    k.firstUnsupported (.predicate o e) = none ↔ o ∈ k.operators := by
  rw [firstUnsupported]
  split
  · next ho => exact iff_of_true rfl ho
  · next ho => exact iff_of_false (Option.some_ne_none _) ho

theorem firstUnsupported_join_eq_none {c : Connective} {cs : List Condition} :
    k.firstUnsupported (.join c cs) = none ↔
      k.joins c = true ∧ ∀ x ∈ cs, k.firstUnsupported x = none := by
  rw [firstUnsupported]
  split
  · next hc => rw [firstUnsupportedOf_eq_none, and_iff_right hc]
  · next hc => exact iff_of_false (Option.some_ne_none _) fun h => hc h.1

theorem firstUnsupported_not_eq_none {c : Condition} :
    k.firstUnsupported (.not c) = none ↔
      k.badNegation c = none ∧ k.firstUnsupported c = none := by
  rw [firstUnsupported]
  cases k.badNegation c <;> simp

/-- **The check passes if and only if no node is more than the store can express.** -/
theorem check_eq_ok_iff {backend : String} {c : Condition} :
    k.check backend c = .ok () ↔ ∀ x ∈ c.preorder, ∀ operation, ¬ k.Lacks x operation := by
  rw [← firstUnsupported_eq_none_iff, check]
  cases k.firstUnsupported c <;> simp

/-- **The check fails with the first node that is more than the store can express, and with nothing
else.** -/
theorem check_eq_error_iff {backend : String} {c : Condition} {e : QueryError} :
    k.check backend c = .error e ↔
      ∃ operation, k.FirstLacks c operation ∧ e = .unsupported backend operation := by
  simp only [← firstUnsupported_eq_some_iff, check]
  cases k.firstUnsupported c <;> simp [eq_comm]

end Capabilities

end PortableQuery
