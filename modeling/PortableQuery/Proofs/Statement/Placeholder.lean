import PortableQuery.Lowering.Binder
import PortableQuery.Proofs.Formula
import PortableQuery.Proofs.Lowering.Walk

set_option autoImplicit false

/-!
# Placeholders and the values they stand for

A statement holds placeholders, and its parameters hold the values. A value that is bound is found
under its placeholder in every later list of parameters, since parameters are only ever added at
the end.
-/

namespace PortableQuery

/-- What stands in a statement in the place of a value: the word for null, a placeholder, or a list
of placeholders. -/
inductive Slot (κ : Type) where
  | null
  | one (key : κ)
  | many (keys : List κ)
deriving DecidableEq, Repr

/-- The value that a slot stands for, placeholders being looked up by `look`. -/
def Slot.value? {κ N : Type} (look : κ → Option N) (null : N) (list : List N → N) :
    Slot κ → Option N
  | .null => some null
  | .one k => look k
  | .many ks => (ks.mapM look).map list

/-- One binder has gone on from another. -/
structure Binder.Extends {N : Type} (b b' : Binder N) : Prop where
  style : b'.style = b.style
  firstOrdinal : b'.firstOrdinal = b.firstOrdinal
  parameters : b.parameters <+: b'.parameters

namespace Binder.Extends

variable {N : Type} {b b' b'' : Binder N}

theorem refl (b : Binder N) : b.Extends b := ⟨rfl, rfl, List.prefix_rfl⟩

theorem trans (h : b.Extends b') (h' : b'.Extends b'') : b.Extends b'' :=
  ⟨h'.style.trans h.style, h'.firstOrdinal.trans h.firstOrdinal, h.parameters.trans h'.parameters⟩

theorem push (b : Binder N) (name : Option String) (v : N) : b.Extends (b.push name v) :=
  ⟨rfl, rfl, List.prefix_append ..⟩

end Binder.Extends

/-- The placeholders of one style: how each is written, and where its value is found. -/
structure Placeholders (κ N : Type) where
  style : ParamStyle
  write : κ → String
  look : List (Parameter N) → κ → Option N

namespace Placeholders

variable {κ N : Type}

/-- The binder hands out these placeholders, from the first one on. -/
def Ready (P : Placeholders κ N) (b : Binder N) : Prop := b.style = P.style ∧ b.firstOrdinal = 1

theorem Ready.extends {P : Placeholders κ N} {b b' : Binder N} (h : P.Ready b)
    (hb : b.Extends b') : P.Ready b' :=
  ⟨hb.style.trans h.1, hb.firstOrdinal.trans h.2⟩

/-- A bound value is found under its placeholder from then on. -/
def Faithful (P : Placeholders κ N) (valid : κ → Prop) : Prop :=
  ∀ {b : Binder N} {field : String} {v : N} {p : String} {b' : Binder N}, P.Ready b →
    b.bind field v = .ok (p, b') → b.Extends b' ∧
      ∃ k, valid k ∧ p = P.write k ∧ ∀ ps, b'.parameters <+: ps → P.look ps k = some v

/-- **Bound values are found under their placeholders from then on.** -/
theorem Faithful.bindAll {P : Placeholders κ N} {valid : κ → Prop} (hP : P.Faithful valid)
    {b : Binder N} {field : String} {vs : List N} {texts : List String} {b' : Binder N}
    (hb : P.Ready b) (h : b.bindAll field vs = .ok (texts, b')) :
    b.Extends b' ∧ ∃ ks : List κ, (∀ k ∈ ks, valid k) ∧ texts = ks.map P.write ∧
      ∀ ps, b'.parameters <+: ps → ks.mapM (P.look ps) = some vs := by
  induction vs generalizing b texts with
  | nil =>
    obtain ⟨rfl, rfl⟩ := Prod.mk.inj (Except.ok.inj h)
    exact ⟨.refl _, [], by simp, rfl, fun _ _ => rfl⟩
  | cons v vs ih =>
    simp only [Binder.bindAll] at h
    obtain ⟨⟨p, b₁⟩, hv, h⟩ := bind_eq_ok.mp h
    obtain ⟨⟨texts', b₂⟩, hvs, h⟩ := bind_eq_ok.mp h
    obtain ⟨rfl, rfl⟩ := Prod.mk.inj (pure_eq_ok.mp h)
    obtain ⟨hext, k, hk, rfl, hlook⟩ := hP hb hv
    obtain ⟨hext', ks, hks, rfl, hlooks⟩ := ih (hb.extends hext) hvs
    refine ⟨hext.trans hext', k :: ks, by simpa using ⟨hk, hks⟩, rfl, fun ps hps => ?_⟩
    rw [List.mapM_cons, hlook ps (hext'.parameters.trans hps)]
    simp [hlooks ps hps]

end Placeholders

end PortableQuery
