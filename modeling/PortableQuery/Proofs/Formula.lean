import Mathlib.Data.List.Forall2
import PortableQuery.Condition

set_option autoImplicit false

/-!
# Formulas

What conditions and filters have in common: conjunctions, disjunctions and negations over atoms of
some kind. Conditions are formulas over comparisons with values; what is read back from a statement
is a formula over comparisons with whatever the statement holds in place of a value.
-/

namespace PortableQuery

/-- Conjunctions, disjunctions and negations of atoms. -/
inductive Formula (α : Type) where
  | atom (a : α)
  | join (connective : Connective) (parts : List (Formula α))
  | not (part : Formula α)
deriving Repr

namespace Formula

variable {α β γ : Type}

@[elab_as_elim]
theorem induct {motive : Formula α → Prop} (atom : ∀ a, motive (.atom a))
    (join : ∀ c fs, (∀ f ∈ fs, motive f) → motive (.join c fs))
    (not : ∀ f, motive f → motive (.not f)) (f : Formula α) : motive f := by
  refine @Formula.rec α motive (fun fs => ∀ f ∈ fs, motive f) atom join not ?_ ?_ f
  · exact List.forall_mem_nil _
  · exact fun _ _ hg hgs => List.forall_mem_cons.mpr ⟨hg, hgs⟩

/-! ## Folds -/

section Fold

variable (atom : α → β) (join : Connective → List β → β) (not : β → β)

mutual

/-- The value of a formula, node by node from the atoms on. -/
def fold : Formula α → β
  | .atom a => atom a
  | .join c fs => join c (foldAll fs)
  | .not f => not (fold f)
termination_by structural f => f

/-- The values of several formulas. -/
def foldAll : List (Formula α) → List β
  | [] => []
  | f :: fs => fold f :: foldAll fs
termination_by structural fs => fs

end

theorem foldAll_eq_map (fs : List (Formula α)) :
    foldAll atom join not fs = fs.map (fold atom join not) := by
  induction fs with
  | nil => rfl
  | cons f fs ih => rw [foldAll, ih, List.map_cons]

@[simp] theorem fold_atom (a : α) : fold atom join not (.atom a) = atom a := rfl

@[simp] theorem fold_join (c : Connective) (fs : List (Formula α)) :
    fold atom join not (.join c fs) = join c (fs.map (fold atom join not)) := by
  rw [fold, foldAll_eq_map]

@[simp] theorem fold_not (f : Formula α) :
    fold atom join not (.not f) = not (fold atom join not f) := rfl

end Fold

/-- Another atom in the place of each. -/
def map (g : α → β) : Formula α → Formula β := fold (fun a => .atom (g a)) .join .not

/-- A formula in the place of each atom. -/
def flatMap (g : α → Formula β) : Formula α → Formula β := fold g .join .not

/-- Formulas under a connective; a single one stands alone. -/
def joined (c : Connective) : List (Formula α) → Formula α
  | [f] => f
  | fs => .join c fs

/-- The formula without joins of a single part. -/
def collapse : Formula α → Formula α := fold .atom joined .not

/-- The formula is true if an atom is where `p` says so. -/
def Holds (p : α → Prop) : Formula α → Prop :=
  fold p (fun c ps => match c with | .and => ∀ x ∈ ps, x | .or => ∃ x ∈ ps, x) Not

section Simp

variable (g : α → β) (h : α → Formula β) (p : α → Prop) (c : Connective) (fs : List (Formula α))
  (f : Formula α) (a : α)

@[simp] theorem map_atom : (atom a).map g = atom (g a) := rfl
@[simp] theorem map_join : (join c fs).map g = join c (fs.map (·.map g)) := fold_join ..
@[simp] theorem map_not : (not f).map g = not (f.map g) := rfl

@[simp] theorem flatMap_atom : (atom a).flatMap h = h a := rfl
@[simp] theorem flatMap_join : (join c fs).flatMap h = join c (fs.map (·.flatMap h)) := fold_join ..
@[simp] theorem flatMap_not : (not f).flatMap h = not (f.flatMap h) := rfl

@[simp] theorem collapse_atom : (atom a).collapse = atom a := rfl
@[simp] theorem collapse_join : (join c fs).collapse = joined c (fs.map collapse) := fold_join ..
@[simp] theorem collapse_not : (not f).collapse = not f.collapse := rfl

@[simp] theorem joined_singleton : joined c [f] = f := rfl

@[simp] theorem holds_atom : (atom a).Holds p ↔ p a := Iff.rfl
@[simp] theorem holds_not : (not f).Holds p ↔ ¬ f.Holds p := Iff.rfl

@[simp] theorem holds_and : (join .and fs).Holds p ↔ ∀ f ∈ fs, f.Holds p := by
  rw [Holds, fold_join]
  exact List.forall_mem_map

@[simp] theorem holds_or : (join .or fs).Holds p ↔ ∃ f ∈ fs, f.Holds p := by
  rw [Holds, fold_join]
  constructor
  · rintro ⟨x, hx, h⟩
    obtain ⟨f, hf, rfl⟩ := List.mem_map.mp hx
    exact ⟨f, hf, h⟩
  · rintro ⟨f, hf, h⟩
    exact ⟨_, List.mem_map_of_mem hf, h⟩

end Simp

theorem holds_join_congr {p : α → Prop} {q : β → Prop} (c : Connective) {fs : List (Formula α)}
    {gs : List (Formula β)} (h : List.Forall₂ (fun f g => f.Holds p ↔ g.Holds q) fs gs) :
    (join c fs).Holds p ↔ (join c gs).Holds q := by
  cases c with
  | and =>
    simp only [holds_and]
    induction h with
    | nil => simp
    | cons hf _ ih => simp only [List.forall_mem_cons, hf, ih]
  | or =>
    simp only [holds_or]
    induction h with
    | nil => simp
    | cons hf _ ih => simp only [List.exists_mem_cons_iff, hf, ih]

theorem holds_congr {p q : α → Prop} (h : ∀ a, p a ↔ q a) (f : Formula α) :
    f.Holds p ↔ f.Holds q := by
  have hpq : p = q := funext fun a => propext (h a)
  rw [hpq]

theorem holds_joined (p : α → Prop) (c : Connective) (fs : List (Formula α)) :
    (joined c fs).Holds p ↔ (join c fs).Holds p := by
  match fs with
  | [] | _ :: _ :: _ => rfl
  | [f] => cases c <;> simp

theorem holds_join_map {p : α → Prop} {q : β → Prop} {g : Formula α → Formula β} (c : Connective)
    {fs : List (Formula α)} (h : ∀ f ∈ fs, (g f).Holds q ↔ f.Holds p) :
    (join c (fs.map g)).Holds q ↔ (join c fs).Holds p := by
  apply holds_join_congr
  rw [List.forall₂_map_left_iff, List.forall₂_same]
  exact h

theorem holds_flatMap (g : α → Formula β) (p : β → Prop) (f : Formula α) :
    (f.flatMap g).Holds p ↔ f.Holds fun a => (g a).Holds p := by
  induction f using Formula.induct with
  | atom a => rfl
  | join c fs ih =>
    rw [flatMap_join]
    exact holds_join_map c ih
  | not f ih => rw [flatMap_not, holds_not, holds_not, ih]

theorem holds_map (g : α → β) (p : β → Prop) (f : Formula α) :
    (f.map g).Holds p ↔ f.Holds fun a => p (g a) :=
  holds_flatMap (fun a => .atom (g a)) p f

theorem holds_collapse (p : α → Prop) (f : Formula α) : f.collapse.Holds p ↔ f.Holds p := by
  induction f using Formula.induct with
  | atom a => rfl
  | join c fs ih =>
    rw [collapse_join, holds_joined]
    exact holds_join_map c ih
  | not f ih => rw [collapse_not, holds_not, holds_not, ih]

theorem map_joined (g : α → β) (c : Connective) (fs : List (Formula α)) :
    (joined c fs).map g = joined c (fs.map (·.map g)) := by
  match fs with
  | [] | [_] | _ :: _ :: _ => simp [joined]

theorem flatMap_joined (g : α → Formula β) (c : Connective) (fs : List (Formula α)) :
    (joined c fs).flatMap g = joined c (fs.map (·.flatMap g)) := by
  match fs with
  | [] | [_] | _ :: _ :: _ => simp [joined]

theorem list_map_eq_map_of_imp {g h : α → β} {g' h' : γ → β} {xs : List α} {ys : List γ}
    (himp : ∀ x ∈ xs, ∀ y, g x = g' y → h x = h' y) (hxs : xs.map g = ys.map g') :
    xs.map h = ys.map h' := by
  induction xs generalizing ys with
  | nil =>
    obtain rfl := List.map_eq_nil_iff.mp hxs.symm
    rfl
  | cons x xs ih =>
    cases ys with
    | nil => cases hxs
    | cons y ys =>
      obtain ⟨hx, hxs⟩ := List.cons.inj hxs
      rw [List.map_cons, List.map_cons, himp x (by simp) y hx,
        ih (fun x hx => himp x (List.mem_cons_of_mem _ hx)) hxs]

/-- Formulas that are alike under `g` are alike under `h`, if that holds of their atoms. -/
theorem map_eq_map_of_imp {g h : α → β} {g' h' : γ → β}
    (himp : ∀ a a', g a = g' a' → h a = h' a') {f : Formula α} {f' : Formula γ}
    (hf : f.map g = f'.map g') : f.map h = f'.map h' := by
  induction f using Formula.induct generalizing f' with
  | atom a =>
    cases f' with
    | atom a' => rw [map_atom, map_atom, himp a a' (Formula.atom.inj hf)]
    | join c fs' => rw [map_join] at hf; cases hf
    | not f' => cases hf
  | join c fs ih =>
    rw [map_join] at hf
    cases f' with
    | atom a' => cases hf
    | join c' fs' =>
      rw [map_join] at hf
      obtain ⟨rfl, hfs⟩ := Formula.join.inj hf
      rw [map_join, map_join, list_map_eq_map_of_imp (fun f hf f' h => ih f hf h) hfs]
    | not f' => cases hf
  | not f ih =>
    cases f' with
    | atom a' => cases hf
    | join c fs' => rw [map_join] at hf; cases hf
    | not f' => rw [map_not, map_not, ih (Formula.not.inj hf)]

end Formula

/-! ## Conditions as formulas -/

/-- A field, what it is compared by, and what with. -/
structure Comparison (N : Type) where
  operator : Operator
  field : String
  value : N
deriving DecidableEq, Repr

/-- The same comparison with another value. -/
def Comparison.map {N M : Type} (f : N → M) (c : Comparison N) : Comparison M :=
  ⟨c.operator, c.field, f c.value⟩

namespace Condition

@[elab_as_elim]
theorem induct {motive : Condition → Prop} (predicate : ∀ o e, motive (.predicate o e))
    (join : ∀ c cs, (∀ x ∈ cs, motive x) → motive (.join c cs))
    (not : ∀ c, motive c → motive (.not c)) (c : Condition) : motive c := by
  refine @Condition.rec motive (fun cs => ∀ c ∈ cs, motive c) predicate join not ?_ ?_ c
  · exact List.forall_mem_nil _
  · exact fun _ _ hc hcs => List.forall_mem_cons.mpr ⟨hc, hcs⟩

mutual

/-- The condition as a formula. -/
def formula : Condition → Formula (Comparison Value)
  | .predicate o e => .atom ⟨o, e.name, e.value⟩
  | .join c cs => .join c (formulas cs)
  | .not c => .not (formula c)
termination_by structural c => c

/-- Conditions as formulas. -/
def formulas : List Condition → List (Formula (Comparison Value))
  | [] => []
  | c :: cs => formula c :: formulas cs
termination_by structural cs => cs

end

theorem formulas_eq_map (cs : List Condition) : formulas cs = cs.map formula := by
  induction cs with
  | nil => rfl
  | cons c cs ih => rw [formulas, ih, List.map_cons]

@[simp] theorem formula_predicate (o : Operator) (e : Element) :
    (predicate o e).formula = .atom ⟨o, e.name, e.value⟩ := rfl

@[simp] theorem formula_join (c : Connective) (cs : List Condition) :
    (join c cs).formula = .join c (cs.map formula) := by
  rw [formula, formulas_eq_map]

@[simp] theorem formula_not (c : Condition) : (not c).formula = .not c.formula := rfl

end Condition

end PortableQuery
