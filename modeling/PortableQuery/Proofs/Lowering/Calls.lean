import Mathlib.Data.List.Nodup
import PortableQuery.Proofs.Lowering.Naming

set_option autoImplicit false

/-!
# Calls of a binder

A binder may be called for a field or under a name, and in any order. Names that are given and names
that are derived share one space, so a name that is given may be the one that is derived next; the
call that would use it again fails and leaves no trace.
-/

namespace PortableQuery

/-! ## Placeholders -/

/-- What stands for a value without a name. It shows the ordinal in one style only, and a style with
names has no such values. -/
def ParamStyle.mark (style : ParamStyle) (ordinal : Nat) : String :=
  match style with
  | .dollar => "$" ++ toString ordinal
  | .question => "?"
  | .named _ | .inline => ""

/-- What stands for a parameter with this ordinal: its name if it has one, and else a mark. -/
def Parameter.placeholder {N : Type} (style : ParamStyle) (ordinal : Nat) (p : Parameter N) :
    String :=
  match p.name with
  | some name => Binder.namedPlaceholder style name
  | none => style.mark ordinal

theorem ParamStyle.mark_dollar_inj {m n : Nat} (h : dollar.mark m = dollar.mark n) : m = n := by
  have hdigits : (toString m).toList = (toString n).toList :=
    congrArg String.toList ((String.append_right_inj _).mp h)
  rw [← Digits.value_toString m, hdigits, Digits.value_toString]

namespace Binder

theorem namedPlaceholder_inj {style : ParamStyle} {m n : String}
    (h : namedPlaceholder style m = namedPlaceholder style n) : m = n := by
  cases style <;> exact (String.append_right_inj _).mp h

theorem namedPlaceholder_ne_mark {style : ParamStyle} (hs : ∀ sigil, style ≠ .named sigil)
    (name : String) (n : Nat) : namedPlaceholder style name ≠ style.mark n := by
  intro h
  have hhead := congrArg (fun s : String => s.toList.head?) h
  cases style with
  | named sigil => exact hs sigil rfl
  | dollar | question | inline => simp [namedPlaceholder, ParamStyle.mark] at hhead

variable {N : Type}

/-! ## Calls -/

/-- A call of a binder: a value for a field, or one under a name. -/
inductive Call (N : Type) where
  | bind (field : String) (value : N)
  | bindNamed (name : String) (value : N)

/-- What a binder answers to a call, and what becomes of it. -/
def call (b : Binder N) : Call N → Except QueryError (String × Binder N)
  | .bind field value => b.bind field value
  | .bindNamed name value => b.bindNamed name value

/-- The binder after a call; one that fails leaves it as it was. -/
def after (b : Binder N) (c : Call N) : Binder N :=
  match b.call c with
  | .ok (_, b') => b'
  | .error _ => b

/-- The binder after calls, one after the other. -/
def run (b : Binder N) (cs : List (Call N)) : Binder N := cs.foldl after b

/-- The answers to calls, one after the other. -/
def answers (b : Binder N) : List (Call N) → List (Except QueryError String)
  | [] => []
  | c :: cs => (b.call c).map (·.1) :: (b.after c).answers cs

/-- The parameter that a call is to add. -/
def Call.parameter (b : Binder N) : Call N → Parameter N
  | .bind field value => ⟨b.style.name? field b.nextOrdinal, value⟩
  | .bindNamed name value => ⟨some name, value⟩

/-- The name that a call asks for, if it is in use. -/
def Call.taken? (b : Binder N) (c : Call N) : Option String := (c.parameter b).name.filter b.binds

/-- **A call fails for a name in use, and else adds its parameter and answers with what stands for
it.** -/
theorem call_eq (b : Binder N) (c : Call N) :
    b.call c = match c.taken? b with
      | some name => .error (.bindingConflict name)
      | none => .ok ((c.parameter b).placeholder b.style b.nextOrdinal,
          b.push (c.parameter b).name (c.parameter b).value) := by
  cases c with
  | bindNamed name v =>
    show b.bindNamed name v = _
    rw [bindNamed, Call.taken?, Call.parameter, Option.filter_some]
    cases b.binds name <;> rfl
  | bind field v =>
    show b.bind field v = _
    rw [bind, Call.taken?, Call.parameter]
    cases hs : b.style with
    | dollar | question | inline => rfl
    | named sigil =>
      rw [ParamStyle.name?, Option.filter_some, bindNamed, hs]
      cases b.binds (parameterName field b.nextOrdinal) <;> rfl

theorem taken?_eq_some {b : Binder N} {c : Call N} {name : String} :
    c.taken? b = some name ↔
      (c.parameter b).name = some name ∧ ∃ p ∈ b.parameters, p.name = some name := by
  rw [Call.taken?, Option.filter_eq_some_iff, binds, List.any_eq_true]
  simp only [beq_iff_eq]

theorem after_of_taken {b : Binder N} {c : Call N} {name : String} (h : c.taken? b = some name) :
    b.after c = b := by
  rw [after, call_eq, h]

theorem after_of_free {b : Binder N} {c : Call N} (h : c.taken? b = none) :
    b.after c = b.push (c.parameter b).name (c.parameter b).value := by
  rw [after, call_eq, h]

/-! ## What calls keep -/

theorem parameters_run (b : Binder N) (cs : List (Call N)) :
    b.parameters <+: (b.run cs).parameters := by
  induction cs generalizing b with
  | nil => exact List.prefix_rfl
  | cons c cs ih =>
    refine List.IsPrefix.trans ?_ (ih (b.after c))
    cases hc : c.taken? b with
    | some name => simp only [after_of_taken hc, List.prefix_rfl]
    | none =>
      rw [after_of_free hc]
      exact List.prefix_append _ _

/-- No name is in use twice, and in a style with names every parameter has one; the counter stands
behind the last parameter. -/
structure Apart (style : ParamStyle) (first : Nat) (b : Binder N) : Prop where
  style_eq : b.style = style
  nextOrdinal_eq : b.nextOrdinal = first + b.parameters.length
  nodup_names : (b.parameters.filterMap (·.name)).Nodup
  name_ne {sigil : Char} (h : style = .named sigil) : ∀ p ∈ b.parameters, p.name ≠ none

section Apart

variable {style : ParamStyle} {first : Nat} {b : Binder N}

/-- **A call keeps names apart**, whether it succeeds or not. -/
theorem Apart.after (h : b.Apart style first) (c : Call N) : (b.after c).Apart style first := by
  cases hc : c.taken? b with
  | some name =>
    rw [after_of_taken hc]
    exact h
  | none =>
    rw [after_of_free hc]
    refine ⟨h.style_eq, ?_, ?_, fun {sigil} hs => ?_⟩
    · have hnext := h.nextOrdinal_eq
      simp only [nextOrdinal, push, List.length_append, List.length_singleton] at hnext ⊢
      omega
    · have hfree : ∀ name, (c.parameter b).name = some name →
          name ∉ b.parameters.filterMap (·.name) := by
        intro name hname hmem
        rw [taken?_eq_some.mpr ⟨hname, List.mem_filterMap.mp hmem⟩] at hc
        cases hc
      rw [push, List.filterMap_append]
      cases hname : (c.parameter b).name with
      | none => simpa using h.nodup_names
      | some name =>
        exact h.nodup_names.append (List.nodup_singleton name)
          (List.disjoint_singleton.mpr (hfree name hname))
    · have hname : (c.parameter b).name ≠ none := by
        cases c with
        | bindNamed name v => exact Option.some_ne_none name
        | bind field v =>
          rw [Call.parameter, h.style_eq, hs]
          exact Option.some_ne_none _
      rw [push, List.forall_mem_append, List.forall_mem_singleton]
      exact ⟨h.name_ne hs, hname⟩

/-- **A run of calls keeps names apart.** -/
theorem Apart.run (h : b.Apart style first) (cs : List (Call N)) :
    (b.run cs).Apart style first := by
  induction cs generalizing b with
  | nil => exact h
  | cons c cs ih => exact ih (h.after c)

theorem Apart.firstOrdinal_eq (h : b.Apart style first) : b.firstOrdinal = first :=
  Nat.add_right_cancel h.nextOrdinal_eq

theorem Apart.eq_of_name_eq (h : b.Apart style first) {i j : Nat} {p q : Parameter N}
    (hp : b.parameters[i]? = some p) (hq : b.parameters[j]? = some q) {name : String}
    (hpname : p.name = some name) (hqname : q.name = some name) : i = j := by
  obtain ⟨hi, rfl⟩ := List.getElem?_eq_some_iff.mp hp
  obtain ⟨hj, rfl⟩ := List.getElem?_eq_some_iff.mp hq
  have hnames := List.pairwise_iff_getElem.mp (List.pairwise_filterMap.mp h.nodup_names)
  rcases Nat.lt_trichotomy i j with hlt | heq | hlt
  · exact absurd rfl (hnames i j hi hj hlt name hpname name hqname)
  · exact heq
  · exact absurd rfl (hnames j i hj hi hlt name hqname name hpname)

/-- **A placeholder belongs to one parameter**, if it is a name or shows an ordinal. -/
theorem Apart.eq_of_placeholder_eq (h : b.Apart style first) {i j : Nat} {p q : Parameter N}
    (hp : b.parameters[i]? = some p) (hq : b.parameters[j]? = some q)
    (hmark : p.name ≠ none ∨ style = .dollar)
    (hsame : p.placeholder style (first + i) = q.placeholder style (first + j)) : i = j := by
  unfold Parameter.placeholder at hsame
  cases hpname : p.name with
  | some m =>
    cases hqname : q.name with
    | some n =>
      rw [hpname, hqname] at hsame
      obtain rfl := namedPlaceholder_inj hsame
      exact h.eq_of_name_eq hp hq hpname hqname
    | none =>
      have hs (sigil : Char) : style ≠ .named sigil :=
        fun hs => h.name_ne hs q (List.mem_of_getElem? hq) hqname
      rw [hpname, hqname] at hsame
      exact absurd hsame (namedPlaceholder_ne_mark hs m _)
  | none =>
    obtain rfl := hmark.resolve_left (absurd hpname)
    cases hqname : q.name with
    | some n =>
      rw [hpname, hqname] at hsame
      have hs (sigil : Char) : ParamStyle.dollar ≠ .named sigil := nofun
      exact absurd hsame.symm (namedPlaceholder_ne_mark hs n _)
    | none =>
      rw [hpname, hqname] at hsame
      exact Nat.add_left_cancel (ParamStyle.mark_dollar_inj hsame)

end Apart

/-! ## Runs from an empty binder -/

/-- A binder without parameters. -/
def start (style : ParamStyle) (first : Nat) : Binder N :=
  { style := style, firstOrdinal := first }

theorem apart_start (style : ParamStyle) (first : Nat) :
    (start style first : Binder N).Apart style first :=
  ⟨rfl, rfl, List.nodup_nil, fun _ => List.forall_mem_nil _⟩

/-- What stands for the parameters, one after the other. -/
def placeholders (b : Binder N) : List String :=
  b.parameters.mapIdx fun i p => p.placeholder b.style (b.firstOrdinal + i)

theorem placeholders_after (b : Binder N) (c : Call N) :
    (b.after c).placeholders =
      b.placeholders ++ ((b.call c).map (·.1)).toOption.toList := by
  cases hc : c.taken? b with
  | some name =>
    rw [after_of_taken hc, call_eq, hc]
    exact (List.append_nil _).symm
  | none =>
    rw [after_of_free hc, call_eq, hc]
    exact List.mapIdx_concat

/-- **The placeholders are what the calls that succeeded have answered.** -/
theorem placeholders_run (b : Binder N) (cs : List (Call N)) :
    (b.run cs).placeholders = b.placeholders ++ (b.answers cs).filterMap Except.toOption := by
  induction cs generalizing b with
  | nil => exact (List.append_nil _).symm
  | cons c cs ih =>
    show ((b.after c).run cs).placeholders = _
    rw [ih, placeholders_after, List.append_assoc, answers, List.filterMap_cons]
    cases ((b.call c).map (·.1)).toOption <;> rfl

/-- **A binder of derived names takes every value that is bound for a field.** -/
theorem answers_of_derived {b : Binder N} (h : b.Derived) (us : List (Named N)) :
    b.answers (us.map fun u => .bind u.name u.value) =
      (placeholdersFrom b.style b.nextOrdinal us).map .ok := by
  induction us generalizing b with
  | nil => rfl
  | cons u us ih =>
    have hcall : b.call (.bind u.name u.value) =
        .ok (b.style.placeholder u.name b.nextOrdinal, b.extend [u]) :=
      bind_of_derived h u.name u.value
    have hnext := ih (h.extend [u])
    rw [extend_style, nextOrdinal_extend] at hnext
    rw [List.map_cons, answers, after, hcall]
    exact congrArg _ hnext

/-- How a binder answers a call. -/
structure Answers (b : Binder N) (c : Call N) : Prop where
  /-- It fails if and only if the name, given or derived, is in use. -/
  fails_iff : (∃ e, b.call c = .error e) ↔
    ∃ name, (c.parameter b).name = some name ∧ ∃ p ∈ b.parameters, p.name = some name
  /-- Then it reports that name, and nothing has changed. -/
  error {e : QueryError} (h : b.call c = .error e) :
    (∃ name, (c.parameter b).name = some name ∧ e = .bindingConflict name) ∧ b.after c = b
  /-- Else it adds the one parameter, and answers with its placeholder. -/
  ok {text : String} {b' : Binder N} (h : b.call c = .ok (text, b')) :
    b' = { b with parameters := b.parameters ++ [c.parameter b] } ∧
      text = (c.parameter b).placeholder b.style b.nextOrdinal ∧ b.after c = b'

theorem answers_call (b : Binder N) (c : Call N) : b.Answers c := by
  cases hc : c.taken? b with
  | some name =>
    have hname := taken?_eq_some.mp hc
    have hcall : b.call c = .error (.bindingConflict name) := by rw [call_eq, hc]
    refine ⟨iff_of_true ⟨_, hcall⟩ ⟨name, hname⟩, fun h => ?_, fun h => ?_⟩
    · obtain rfl := Except.error.inj (hcall.symm.trans h)
      exact ⟨⟨name, hname.1, rfl⟩, after_of_taken hc⟩
    · rw [hcall] at h
      cases h
  | none =>
    have hcall := call_eq b c
    rw [hc] at hcall
    refine ⟨iff_of_false ?_ ?_, fun h => ?_, fun h => ?_⟩
    · rintro ⟨e, h⟩
      rw [hcall] at h
      cases h
    · rintro ⟨name, hname⟩
      rw [taken?_eq_some.mpr hname] at hc
      cases hc
    · rw [hcall] at h
      cases h
    · rw [hcall] at h
      obtain ⟨rfl, rfl⟩ := Prod.mk.inj (Except.ok.inj h)
      exact ⟨rfl, rfl, after_of_free hc⟩

/-- However calls go on, the text stands for the parameter in this place and for no other. -/
def StandsFor (b : Binder N) (text : String) (place : Nat) : Prop :=
  ∀ (more : List (Call N)) (i : Nat), (b.run more).placeholders[i]? = some text ↔ i = place

/-- **What a call answers with stands for what it adds**, if it is a name or shows an ordinal. -/
theorem Apart.standsFor {style : ParamStyle} {first : Nat} {b b' : Binder N}
    (hb : b.Apart style first) {c : Call N} {text : String} (h : b.call c = .ok (text, b'))
    (hmark : style ≠ .question ∧ style ≠ .inline ∨ (c.parameter b).name ≠ none) :
    b'.StandsFor text b.parameters.length := by
  obtain ⟨hadd, rfl, hafter⟩ := (answers_call b c).ok h
  intro more i
  have hlater : (b'.run more).Apart style first := by
    rw [← hafter]
    exact (hb.after c).run more
  have hplace : (b'.run more).parameters[b.parameters.length]? = some (c.parameter b) := by
    obtain ⟨ps, hps⟩ := parameters_run b' more
    rw [← hps, hadd, List.append_assoc, List.getElem?_append_right (Nat.le_refl _), Nat.sub_self]
    rfl
  have hown : (c.parameter b).name ≠ none ∨ style = .dollar := by
    rcases hmark with ⟨hquestion, hinline⟩ | hname
    · cases hs : style with
      | dollar => exact .inr rfl
      | named sigil => exact .inl (hlater.name_ne hs _ (List.mem_of_getElem? hplace))
      | question => exact absurd hs hquestion
      | inline => exact absurd hs hinline
    · exact .inl hname
  rw [placeholders, hlater.firstOrdinal_eq, hlater.style_eq, hb.style_eq, hb.nextOrdinal_eq,
    List.getElem?_mapIdx, Option.map_eq_some_iff]
  constructor
  · rintro ⟨p, hp, hsame⟩
    exact (hlater.eq_of_placeholder_eq hplace hp hown hsame.symm).symm
  · rintro rfl
    exact ⟨_, hplace, rfl⟩

/-- What a run of calls has made of an empty binder. -/
structure KeepsApart (style : ParamStyle) (first : Nat) (cs : List (Call N)) (b : Binder N) :
    Prop where
  apart : b.Apart style first
  /-- Every call that succeeded has added a parameter, and nothing else has. -/
  placeholders_eq :
    b.placeholders = ((start style first).answers cs).filterMap Except.toOption
  answers (c : Call N) : b.Answers c
  /-- Whatever is called next, the parameters stay as they are. -/
  kept (more : List (Call N)) : b.parameters <+: (b.run more).parameters
  /-- What the next call answers with stands for what it adds, unless no name is given and the style
  neither derives one nor shows ordinals. -/
  standsFor {c : Call N} {text : String} {b' : Binder N} (h : b.call c = .ok (text, b'))
    (hmark : style ≠ .question ∧ style ≠ .inline ∨ (c.parameter b).name ≠ none) :
    b'.StandsFor text b.parameters.length

end Binder

/-- **However a binder is called, for fields or under names that are given, no name is in use twice.
A call fails exactly if the name that is given or derived is in use, and changes nothing then; else
it adds one parameter, behind the others, which stay as they are, and answers with what stands for
this parameter alone. The counter stands behind the last parameter. Where no names are given,
nothing fails.** -/
theorem values_kept_apart {N : Type} (style : ParamStyle) (first : Nat) :
    (∀ cs : List (Binder.Call N),
      Binder.KeepsApart style first cs ((Binder.start style first).run cs)) ∧
      ∀ us : List (Named N),
        (Binder.start style first).answers (us.map fun u => .bind u.name u.value) =
          (placeholdersFrom style first us).map .ok := by
  refine ⟨fun cs => ?_, Binder.answers_of_derived (Binder.derived_start style first)⟩
  have happart := (Binder.apart_start (N := N) style first).run cs
  exact ⟨happart, Binder.placeholders_run _ cs, Binder.answers_call _, Binder.parameters_run _,
    happart.standsFor⟩

/-- A name that is given may be the next one that is derived. The field cannot be bound then, and
the counter does not go on; another field can. -/
example : (Binder.start (.named '@') 1).answers
    [.bindNamed "age_2" 0, .bind "age" 1, .bind "age" 2, .bind "rank" 3, .bind "age" 4] =
    [.ok "@age_2", .error (.bindingConflict "age_2"), .error (.bindingConflict "age_2"),
      .ok "@rank_2", .ok "@age_3"] := rfl

end PortableQuery
