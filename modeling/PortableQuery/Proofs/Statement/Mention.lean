import Mathlib.Data.List.Forall2
import PortableQuery.Proofs.Lowering.Operands
import PortableQuery.Proofs.Statement.Token

set_option autoImplicit false

/-!
# Placeholders in texts

The placeholders of a text are its tokens that stand for values. Names and strings in quotes are
tokens of their own, so nothing inside them is one.
-/

namespace PortableQuery

/-- What a token says if it stands for a value. -/
def Token.placeholder? : Token → Option String
  | .parameter sigil s => some (String.singleton sigil ++ s)
  | .sign "?" => some "?"
  | _ => none

namespace Lexer

variable (quotes : List Quote)

/-- The placeholders of a text, from left to right. -/
def placeholders? (text : String) : Option (List String) :=
  (tokens? quotes text).map (·.filterMap Token.placeholder?)

/-- The text has these placeholders. -/
def Mentions (text : String) (ps : List String) : Prop :=
  ∃ ts, Spells quotes text ts ∧ ts.filterMap Token.placeholder? = ps

/-- The text has these placeholders, and stands apart from what is before it. -/
structure Adds (text : String) (ps : List String) : Prop where
  mentions : Mentions quotes text ps
  cuts : text = "" ∨ StartsCutting text

variable {quotes} {a b : String} {ps qs : List String}

theorem placeholders?_eq_some {text : String} :
    placeholders? quotes text = some ps ↔ Mentions quotes text ps := by
  simp only [placeholders?, Option.map_eq_some_iff, Mentions, Spells]

theorem mentions_of_spells {ts : List Token} (h : Spells quotes a ts) :
    Mentions quotes a (ts.filterMap Token.placeholder?) := ⟨ts, h, rfl⟩

/-- **Texts side by side have the placeholders of both.** -/
theorem Mentions.append (ha : Mentions quotes a ps) (hb : Adds quotes b qs) :
    Mentions quotes (a ++ b) (ps ++ qs) := by
  obtain ⟨ts, hts, rfl⟩ := ha
  obtain ⟨⟨us, hus, rfl⟩, hcut⟩ := hb
  exact ⟨ts ++ us, hts.append hus hcut, List.filterMap_append⟩

theorem Adds.append (ha : Adds quotes a ps) (hb : Adds quotes b qs) :
    Adds quotes (a ++ b) (ps ++ qs) :=
  ⟨ha.mentions.append hb, empty_or_startsCutting_append ha.cuts hb.cuts⟩

theorem Closes.mentions_append {ts : List Token} (ha : Closes quotes a ts)
    (hb : Mentions quotes b qs) :
    Mentions quotes (a ++ b) (ts.filterMap Token.placeholder? ++ qs) := by
  obtain ⟨us, hus, rfl⟩ := hb
  exact ⟨ts ++ us, ha.append hus, List.filterMap_append⟩

/-- Words between a blank and a blank say nothing of values, and any text may follow. -/
theorem Closes.adds_append {ts : List Token} (ha : Closes quotes a ts) (hcut : StartsCutting a)
    (hnone : ts.filterMap Token.placeholder? = []) (hb : Mentions quotes b qs) :
    Adds quotes (a ++ b) qs := by
  have hmentions := ha.mentions_append hb
  rw [hnone, List.nil_append] at hmentions
  exact ⟨hmentions, .inr (hcut.append b)⟩

theorem adds_empty : Adds quotes "" [] := ⟨⟨[], rfl, rfl⟩, .inl rfl⟩

theorem Mentions.parenthesized (h : Mentions quotes a ps) :
    Adds quotes ("(" ++ a ++ ")") ps := by
  have hopen : Closes quotes "(" [.sign "("] := rfl
  have hclose : Adds quotes ")" [] := ⟨⟨[.sign ")"], rfl, rfl⟩, .inr rfl⟩
  have hmentions := h.append hclose
  rw [List.append_nil] at hmentions
  rw [String.append_assoc]
  exact hopen.adds_append rfl rfl hmentions

/-- **Texts with a separator between them have the placeholders of all.** -/
theorem mentions_intercalate {sep : String} {ts : List Token} (hsep : Closes quotes sep ts)
    (hcut : StartsCutting sep) (hnone : ts.filterMap Token.placeholder? = [])
    {texts : List String} {pss : List (List String)}
    (h : List.Forall₂ (Mentions quotes) texts pss) :
    Mentions quotes (sep.intercalate texts) pss.flatten := by
  induction h with
  | nil => exact adds_empty.mentions
  | @cons a ps texts pss ha hs ih =>
    cases hs with
    | nil => simpa using ha
    | @cons b qs texts pss hb hs =>
      rw [String.intercalate_cons_cons, List.flatten_cons, String.append_assoc]
      exact ha.append (hsep.adds_append hcut hnone ih)

theorem mentions_usesAll {N : Type} {style : ParamStyle} {n : Nat} {us : List (Named N)}
    {texts : List String}
    (h : UsesAll (fun n us text => Mentions quotes text (placeholdersFrom style n us)) n us
      texts) :
    ∃ pss, List.Forall₂ (Mentions quotes) texts pss ∧
      pss.flatten = placeholdersFrom style n us := by
  induction h with
  | nil n => exact ⟨[], .nil, rfl⟩
  | cons hf _ ih =>
    obtain ⟨pss, hpss, hflatten⟩ := ih
    refine ⟨_ :: pss, .cons hf hpss, ?_⟩
    rw [List.flatten_cons, hflatten, placeholdersFrom_append]

/-! ## Predicates and joins -/

theorem Mentions.restricted {path operator text : String} (hpath : Mentions quotes path [])
    {ts : List Token} (hop : Closes quotes operator ts) (hcut : StartsCutting operator)
    (hnone : ts.filterMap Token.placeholder? = []) (htext : Mentions quotes text ps) :
    Mentions quotes (path ++ (operator ++ text)) ps :=
  hpath.append (hop.adds_append hcut hnone htext)

theorem Mentions.compared {path operator text : String} (hpath : Mentions quotes path [])
    {ts : List Token} (hop : Closes quotes (" " ++ operator ++ " ") ts)
    (hnone : ts.filterMap Token.placeholder? = []) (htext : Mentions quotes text ps) :
    Mentions quotes (path ++ " " ++ operator ++ " " ++ text) ps := by
  have hblank : StartsCutting " " := rfl
  have happend : path ++ " " ++ operator ++ " " ++ text =
      path ++ (" " ++ operator ++ " " ++ text) := by
    simp only [String.append_assoc]
  rw [happend]
  exact hpath.restricted hop ((hblank.append operator).append " ") hnone htext

theorem Mentions.followed {path word : String} (hpath : Mentions quotes path ps)
    (hword : Spells quotes (" " ++ word) [.word word]) :
    Mentions quotes (path ++ " " ++ word) ps := by
  have hblank : StartsCutting " " := rfl
  have hadds : Adds quotes (" " ++ word) [] := ⟨⟨_, hword, rfl⟩, .inr (hblank.append word)⟩
  rw [String.append_assoc, ← List.append_nil ps]
  exact hpath.append hadds

theorem Mentions.chosen {path text : String} (hpath : Mentions quotes path [])
    (htext : Mentions quotes text ps) : Mentions quotes (path ++ " IN (" ++ text ++ ")") ps := by
  have hin : Closes quotes " IN " [.word "IN"] := rfl
  have happend : path ++ " IN (" ++ text ++ ")" = path ++ (" IN " ++ ("(" ++ text ++ ")")) := by
    simp only [String.append_assoc]
    rfl
  rw [happend]
  exact hpath.restricted hin rfl rfl htext.parenthesized.mentions

/-- What stands for a value is a placeholder of its text, and the only one. -/
def Placed (quotes : List Quote) (style : ParamStyle) : Prop :=
  ∀ field n, Mentions quotes (style.placeholder field n) [style.placeholder field n]

section Style

variable {N : Type} {style : ParamStyle}

theorem mentions_placeholders (h : Placed quotes style) (n : Nat) (us : List (Named N)) :
    Mentions quotes (String.intercalate ", " (placeholdersFrom style n us))
      (placeholdersFrom style n us) := by
  have hcomma : Closes quotes ", " [.sign ","] := rfl
  have hsingle (n : Nat) : List.Forall₂ (Mentions quotes) (placeholdersFrom style n us)
      ((placeholdersFrom style n us).map fun p => [p]) := by
    induction us generalizing n with
    | nil => exact .nil
    | cons u us ih => exact .cons (h u.name n) (ih (n + 1))
  have hmentions := mentions_intercalate hcomma rfl rfl (hsingle n)
  rwa [← List.flatMap_def, List.flatMap_singleton'] at hmentions

theorem mentions_list {α : Type} {f : α → String} {xs : List α}
    (h : ∀ x ∈ xs, Mentions quotes (f x) []) :
    Mentions quotes (String.intercalate ", " (xs.map f)) [] := by
  have hcomma : Closes quotes ", " [.sign ","] := rfl
  have hitems : List.Forall₂ (Mentions quotes) (xs.map f) (xs.map fun _ => []) := by
    rw [List.forall₂_map_left_iff, List.forall₂_map_right_iff, List.forall₂_same]
    exact h
  have hnone : (xs.map fun _ => ([] : List String)).flatten = [] := by simp
  have hmentions := mentions_intercalate hcomma rfl rfl hitems
  rwa [hnone] at hmentions

theorem mentions_columns {f : String → String} (h : ∀ name, Mentions quotes (f name) [])
    (names : List String) : Mentions quotes
      (if names.isEmpty then "*" else String.intercalate ", " (names.map f)) [] := by
  cases names with
  | nil =>
    have hstar : Spells quotes "*" [.sign "*"] := rfl
    exact mentions_of_spells hstar
  | cons name names =>
    rw [List.isEmpty_cons, if_neg Bool.false_ne_true]
    exact mentions_list fun x _ => h x

theorem mentions_join (c : Connective) {n : Nat} {us : List (Named N)} {texts : List String}
    (h : UsesAll (fun n us text => Mentions quotes text (placeholdersFrom style n us)) n us
      texts) :
    Mentions quotes (String.intercalate (" " ++ c.name ++ " ") (texts.map fun p => "(" ++ p ++ ")"))
      (placeholdersFrom style n us) := by
  obtain ⟨pss, hpss, hflatten⟩ := mentions_usesAll h
  have hsep : Closes quotes (" " ++ c.name ++ " ") [.word c.name] := by cases c <;> rfl
  have hcut : StartsCutting (" " ++ c.name ++ " ") := by cases c <;> rfl
  rw [← hflatten]
  refine mentions_intercalate hsep hcut rfl ?_
  rw [List.forall₂_map_left_iff]
  exact hpss.imp fun _ _ htext => htext.parenthesized.mentions

theorem Mentions.negated (h : Mentions quotes a ps) : Mentions quotes ("NOT (" ++ a ++ ")") ps := by
  have hnot : Closes quotes "NOT " [.word "NOT"] := rfl
  have htext : "NOT (" ++ a ++ ")" = "NOT " ++ ("(" ++ a ++ ")") := by
    simp only [← String.append_assoc]
    rfl
  rw [htext]
  exact hnot.mentions_append h.parenthesized.mentions

theorem adds_clause {d : Dialect (Except QueryError) String N} {B : d.Binding}
    (huses : ∀ us text, B.uses 1 us text → Mentions quotes text (placeholdersFrom d.style 1 us))
    {clause : Option String → String} {keyword : String} {ts : List Token}
    (hkeyword : Closes quotes keyword ts) (hcut : StartsCutting keyword)
    (hnone : ts.filterMap Token.placeholder? = []) (hempty : clause none = "")
    (hclause : ∀ f, clause (some f) = keyword ++ f) {us : List (Named N)} {filter : Option String}
    (h : B.UsedBy us filter) : Adds quotes (clause filter) (placeholdersFrom d.style 1 us) := by
  cases filter with
  | none =>
    obtain rfl : us = [] := h
    rw [hempty]
    exact adds_empty
  | some f =>
    rw [hclause]
    exact hkeyword.adds_append hcut hnone (huses us f h)

end Style

end Lexer

end PortableQuery
