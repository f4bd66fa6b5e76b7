import Mathlib.Data.List.Forall2
import PortableQuery.Document.ExtendedJson
import PortableQuery.Document.Find
import PortableQuery.Proofs.Lowering.Walk
import PortableQuery.Proofs.Value

set_option autoImplicit false

/-!
# Document forms

* **`Document.encode_of_scope`**: the document form does not depend on the field;
* `Document.patternOfRegex`, **`Document.regexOfLike_injective`**: patterns and their regular
  expressions.
-/

namespace PortableQuery.Document

/-! ## Values -/

/-- The value has the same document form for every field. -/
def EncodedEverywhere (v : Value) : Prop :=
  ∀ scope scope' j, encode scope v = .ok j → encode scope' v = .ok j

theorem encodeItems_eq_ok {scope : Scope} {vs : List Value} {js : List Json} :
    encodeItems scope vs = .ok js ↔ List.Forall₂ (fun v j => encode scope v = .ok j) vs js := by
  rw [← mapM_eq_ok]
  suffices h : encodeItems scope vs = vs.mapM (encode scope) by rw [h]
  induction vs with
  | nil => rfl
  | cons v vs ih => rw [encodeItems, List.mapM_cons, ih]

theorem encodeItems_of_scope {scope scope' : Scope} {vs : List Value} {js : List Json}
    (hvs : ∀ v ∈ vs, EncodedEverywhere v) (h : encodeItems scope vs = .ok js) :
    encodeItems scope' vs = .ok js := by
  rw [encodeItems_eq_ok] at h ⊢
  exact forall₂_imp_of_mem (fun v hv j hj => hvs v hv scope scope' j hj) h

theorem encodeEntries_of_scope {scope scope' : Scope} {seen : List String}
    {es : List (Named Value)} {ms : List (Named Json)} (hes : ∀ e ∈ es, EncodedEverywhere e.value)
    (h : encodeEntries scope seen es = .ok ms) : encodeEntries scope' seen es = .ok ms := by
  induction es generalizing seen ms with
  | nil => exact h
  | cons e es ih =>
    simp only [encodeEntries] at h ⊢
    split at h
    · cases h
    · next hdollar =>
      rw [if_neg hdollar]
      obtain ⟨j, hj, h⟩ := bind_eq_ok.mp h
      refine bind_eq_ok.mpr ⟨j, hes e (by simp) _ _ _ hj, ?_⟩
      split at h
      · cases h
      · next hseen =>
        rw [if_neg hseen]
        obtain ⟨ns, hns, h⟩ := bind_eq_ok.mp h
        exact bind_eq_ok.mpr ⟨ns, ih (fun e he => hes e (List.mem_cons_of_mem _ he)) hns, h⟩

/-- **The document form does not depend on the field.** -/
theorem encode_of_scope (v : Value) : EncodedEverywhere v := by
  induction v using Value.induct with
  | scalar v hv =>
    intro scope scope' j h
    cases v <;> first | exact h | cases hv
  | list items ih =>
    intro scope scope' j h
    obtain ⟨js, hjs, h⟩ := bind_eq_ok.mp h
    exact bind_eq_ok.mpr ⟨js, encodeItems_of_scope ih hjs, h⟩
  | map entries ih =>
    intro scope scope' j h
    obtain ⟨ms, hms, h⟩ := bind_eq_ok.mp h
    exact bind_eq_ok.mpr ⟨ms, encodeEntries_of_scope ih hms, h⟩
  | udt type fields => nofun

/-- The document form of a value, if there is one. -/
def encode? (v : Value) : Option Json := (encode ⟨"", ""⟩ v).toOption

theorem encode?_eq_some {scope : Scope} {v : Value} {j : Json} (h : encode scope v = .ok j) :
    encode? v = some j := by
  rw [encode?, encode_of_scope v scope _ j h]
  rfl

theorem encode?_list {scope : Scope} {vs : List Value} {js : List Json}
    (h : List.Forall₂ (fun v j => encode scope v = .ok j) vs js) :
    encode? (.list vs) = some (.array js) :=
  encode?_eq_some (bind_eq_ok.mpr ⟨js, encodeItems_eq_ok.mpr h, rfl⟩)

/-! ## Patterns -/

/-- The pattern that a regular expression comes from, behind its first anchor. -/
def patternOfRegex : List Char → List Char
  | '.' :: '*' :: cs => '%' :: patternOfRegex cs
  | '.' :: cs => '_' :: patternOfRegex cs
  | '\\' :: c :: cs => c :: patternOfRegex cs
  | '$' :: _ => []
  | c :: cs => c :: patternOfRegex cs
  | [] => []

/-- What a pattern becomes does not start with the sign of repetition. -/
theorem head?_flatMap_likeAtom_ne (p : List Char) :
    (p.flatMap likeAtom ++ ['$']).head? ≠ some '*' := by
  cases p with
  | nil => decide
  | cons c p =>
    rw [List.flatMap_cons, List.append_assoc]
    unfold likeAtom literalAtom
    by_cases hpercent : c = '%'
    · simp [hpercent]
    by_cases hunderscore : c = '_'
    · simp [hunderscore]
    rw [if_neg hpercent, if_neg hunderscore]
    by_cases hmeta : c ∈ metaCharacters
    · simp [hmeta]
    · rw [if_neg hmeta]
      intro h
      obtain rfl : c = '*' := by simpa using h
      exact hmeta (by decide)

theorem patternOfRegex_likeAtom (c : Char) {cs : List Char} (h : cs.head? ≠ some '*') :
    patternOfRegex (likeAtom c ++ cs) = c :: patternOfRegex cs := by
  unfold likeAtom literalAtom
  split
  · next hc => subst hc; rfl
  · split
    · next hc =>
      subst hc
      rw [List.singleton_append, patternOfRegex]
      rintro ds rfl
      simp at h
    · split
      · next hm => rfl
      · next hm =>
        have hne : c ≠ '.' ∧ c ≠ '\\' ∧ c ≠ '$' := by
          refine ⟨?_, ?_, ?_⟩ <;> rintro rfl <;> exact hm (by decide)
        rw [List.singleton_append, patternOfRegex]
        · exact fun _ hc _ => hne.1 hc
        · exact hne.1
        · exact fun _ _ hc _ => hne.2.1 hc
        · exact hne.2.2

theorem patternOfRegex_flatMap (p : List Char) :
    patternOfRegex (p.flatMap likeAtom ++ ['$']) = p := by
  induction p with
  | nil => rfl
  | cons c p ih =>
    rw [List.flatMap_cons, List.append_assoc,
      patternOfRegex_likeAtom c (head?_flatMap_likeAtom_ne p), ih]

/-- **A pattern can be told from its regular expression.** -/
theorem regexOfLike_injective : Function.Injective regexOfLike := by
  intro s t h
  have h : regexChars s.toList = regexChars t.toList := String.ofList_injective h
  have hcs := congrArg patternOfRegex (List.cons.inj h).2
  rw [patternOfRegex_flatMap, patternOfRegex_flatMap] at hcs
  exact String.toList_injective hcs

end PortableQuery.Document
