import Mathlib.Data.List.Forall2
import PortableQuery.Proofs.Formula
import PortableQuery.Proofs.Statement.Token

set_option autoImplicit false

/-!
# The grammar of filters

The second step of reading: tokens become formulas. A negation binds tighter than a conjunction, a
conjunction tighter than a disjunction, and parentheses leave no trace. What an atom looks like is
up to the language.
-/

namespace PortableQuery

/-- A reader takes tokens from the front and returns the others, or refuses. -/
abbrev Reader (α : Type) : Type := List Token → Option (α × List Token)

namespace Grammar

variable {α β : Type}

/-- The tokens behind one for which `p` holds. -/
def expect? (p : Token → Bool) : List Token → Option (List Token)
  | [] => none
  | t :: ts => if p t then some ts else none

/-- Items with separators between them, at least one and at most so many. -/
def separatedWithin? (sep : Token → Bool) (item : Reader α) : Nat → Reader (List α)
  | 0, _ => none
  | n + 1, ts => do
    let (a, ts) ← item ts
    match expect? sep ts with
    | some ts => do
      let (as, ts) ← separatedWithin? sep item n ts
      pure (a :: as, ts)
    | none => pure ([a], ts)

/-- Items with separators between them, at least one. -/
def separated? (sep : Token → Bool) (item : Reader α) : Reader (List α) := fun ts =>
  separatedWithin? sep item (ts.length + 1) ts

/-- The comma between items. -/
def isComma (t : Token) : Bool := t == .sign ","

/-- Units joined by `AND`. -/
def conjunction? (unit : Reader (Formula α)) : Reader (Formula α) := fun ts => do
  let (fs, ts) ← separated? (Token.isWord "AND") unit ts
  pure (.joined .and fs, ts)

/-- Conjunctions joined by `OR`. -/
def disjunction? (unit : Reader (Formula α)) : Reader (Formula α) := fun ts => do
  let (fs, ts) ← separated? (Token.isWord "OR") (conjunction? unit) ts
  pure (.joined .or fs, ts)

/-- A negated unit, a formula in parentheses, or an atom, at most so many inside one another. -/
def unit? (atom : Reader α) : Nat → Reader (Formula α)
  | 0, _ => none
  | n + 1, ts =>
    match expect? (Token.isWord "NOT") ts with
    | some ts => do
      let (f, ts) ← unit? atom n ts
      pure (.not f, ts)
    | none =>
      match expect? (· == .sign "(") ts with
      | some ts => do
        let (f, ts) ← disjunction? (unit? atom n) ts
        let ts ← expect? (· == .sign ")") ts
        pure (f, ts)
      | none => do
        let (a, ts) ← atom ts
        pure (.atom a, ts)

/-- A formula; every token is the start of one unit at most. -/
def formula? (atom : Reader α) : Reader (Formula α) := fun ts =>
  disjunction? (unit? atom ts.length) ts

/-! ## What readers take -/

/-- The reader takes `ts` for `a`, unless the tokens behind them start with one that `bad` holds
of. -/
def Reads (bad : Token → Bool) (r : Reader α) (ts : List Token) (a : α) : Prop :=
  ∀ rest, rest.head?.any bad = false → r (ts ++ rest) = some (a, rest)

/-- No token that follows would change what is read. -/
abbrev anywhere : Token → Bool := fun _ => false

theorem Reads.apply {r : Reader α} {ts : List Token} {a : α} (h : Reads anywhere r ts a)
    (rest : List Token) : r (ts ++ rest) = some (a, rest) :=
  h rest (by cases rest <;> rfl)

theorem expect?_cons {p : Token → Bool} {t : Token} (h : p t = true) (ts : List Token) :
    expect? p (t :: ts) = some ts := if_pos h

theorem expect?_eq_none {p : Token → Bool} {ts : List Token} (h : ts.head?.any p = false) :
    expect? p ts = none := by
  cases ts with
  | nil => rfl
  | cons t ts => exact if_neg (by simpa using h)

section Separated

variable {sep bad : Token → Bool} {item : Reader α} {t : Token}

theorem reads_separatedWithin (ht : sep t = true) (hb : bad t = false) {tss : List (List Token)}
    {as : List α} (h : List.Forall₂ (Reads bad item) tss as) (hne : as ≠ []) :
    ∀ n, as.length ≤ n → Reads (fun t => sep t || bad t) (separatedWithin? sep item n)
      ([t].intercalate tss) as := by
  induction h with
  | nil => exact absurd rfl hne
  | @cons ts a tss as ha has ih =>
    rintro (_ | n) hn rest hrest
    · simp at hn
    · have hsep : rest.head?.any sep = false ∧ rest.head?.any bad = false := by
        cases rest with
        | nil => exact ⟨rfl, rfl⟩
        | cons u rest => simpa using hrest
      cases has with
      | nil =>
        rw [List.intercalate_singleton, separatedWithin?, ha rest hsep.2]
        simp only [Option.bind_eq_bind, Option.bind_some, expect?_eq_none hsep.1]
        rfl
      | @cons us b tss as hb' has =>
        have hrec := ih (by simp) n (by simpa using hn) rest hrest
        rw [List.intercalate_cons_cons, List.append_assoc, List.append_assoc, separatedWithin?,
          ha _ (by simpa using hb)]
        simp only [Option.bind_eq_bind, Option.bind_some, List.singleton_append,
          expect?_cons ht, hrec]
        rfl

theorem length_le_length_intercalate (tss : List (List Token)) :
    tss.length ≤ ([t].intercalate tss).length + 1 := by
  induction tss with
  | nil => simp
  | cons ts tss ih =>
    cases tss with
    | nil => simp
    | cons us tss =>
      rw [List.intercalate_cons_cons]
      simp only [List.length_append, List.length_cons, List.length_nil] at ih ⊢
      omega

theorem length_le_length_intercalate_of_mem {ts : List Token} {tss : List (List Token)}
    (h : ts ∈ tss) : ts.length ≤ ([t].intercalate tss).length := by
  induction tss with
  | nil => cases h
  | cons us tss ih =>
    cases tss with
    | nil => simp [List.mem_singleton.mp h]
    | cons vs tss =>
      rw [List.intercalate_cons_cons]
      simp only [List.length_append, List.length_cons, List.length_nil]
      rcases List.mem_cons.mp h with rfl | h
      · omega
      · have := ih h
        omega

theorem reads_separated (ht : sep t = true) (hb : bad t = false) {tss : List (List Token)}
    {as : List α} (h : List.Forall₂ (Reads bad item) tss as) (hne : as ≠ []) :
    Reads (fun t => sep t || bad t) (separated? sep item) ([t].intercalate tss) as := by
  intro rest hrest
  refine reads_separatedWithin ht hb h hne _ ?_ rest hrest
  have := length_le_length_intercalate (t := t) tss
  rw [← h.length_eq, List.length_append]
  omega

theorem reads_separated_singleton {ts : List Token} {a : α} (h : Reads bad item ts a) :
    Reads (fun t => sep t || bad t) (separated? sep item) ts [a] := by
  intro rest hrest
  have hsep : rest.head?.any sep = false ∧ rest.head?.any bad = false := by
    cases rest with
    | nil => exact ⟨rfl, rfl⟩
    | cons u rest => simpa using hrest
  rw [separated?, separatedWithin?, h rest hsep.2]
  simp only [Option.bind_eq_bind, Option.bind_some, expect?_eq_none hsep.1]
  rfl

end Separated

/-! ## Texts of readers -/

section Renders

open Lexer

variable (quotes : List Quote)

/-- The text is taken for `a`, unless it is followed by a token that `bad` holds of. -/
def Renders (bad : Token → Bool) (r : Reader α) (text : String) (a : α) : Prop :=
  ∃ ts, Spells quotes text ts ∧ Reads bad r ts a

variable {quotes} {bad : Token → Bool}

theorem spells_intercalate {sep : String} {t : Token} (hsep : Closes quotes sep [t])
    (hcut : StartsCutting sep) {texts : List String} {tss : List (List Token)}
    (h : List.Forall₂ (Spells quotes) texts tss) :
    Spells quotes (sep.intercalate texts) ([t].intercalate tss) := by
  induction h with
  | nil => exact closes_empty.spells
  | @cons a ts texts tss ha hs ih =>
    cases hs with
    | nil => simpa using ha
    | @cons b us texts tss hb hs =>
      rw [String.intercalate_cons_cons, List.intercalate_cons_cons, String.append_assoc,
        List.append_assoc]
      exact ha.append (hsep.append ih) (.inr (hcut.append _))

/-- **Items with commas between them are taken one by one.** -/
theorem renders_separated {item : Reader α} {texts : List String} {as : List α}
    (h : List.Forall₂ (Renders quotes bad item) texts as) (hne : as ≠ [])
    (hb : bad (.sign ",") = false) :
    Renders quotes (fun t => isComma t || bad t) (separated? isComma item)
      (String.intercalate ", " texts) as := by
  have hparts : ∃ tss, List.Forall₂ (Spells quotes) texts tss ∧
      List.Forall₂ (Reads bad item) tss as := by
    clear hne
    induction h with
    | nil => exact ⟨[], .nil, .nil⟩
    | cons hp _ ih =>
      obtain ⟨ts, hs, hr⟩ := hp
      obtain ⟨tss, hss, hrs⟩ := ih
      exact ⟨ts :: tss, .cons hs hss, .cons hr hrs⟩
  obtain ⟨tss, hss, hrs⟩ := hparts
  have hcomma : Closes quotes ", " [.sign ","] := rfl
  exact ⟨_, spells_intercalate hcomma rfl hss, reads_separated rfl hb hrs hne⟩

end Renders

/-! ## Formulas -/

/-- The word between the parts of a join. -/
def connectiveToken (c : Connective) : Token := .word c.name

/-- A token that would carry a formula on. -/
def joins (t : Token) : Bool := t.isWord "OR" || (t.isWord "AND" || anywhere t)

variable (atom : Reader α)

/-- The tokens are a formula, whatever unit they stand in. -/
def Expresses (ts : List Token) (f : Formula α) : Prop :=
  ∀ n, ts.length ≤ n → Reads joins (disjunction? (unit? atom n)) ts f

/-- The tokens are a unit of a formula. -/
def IsUnit (ts : List Token) (f : Formula α) : Prop :=
  ∀ n, ts.length ≤ n → Reads anywhere (unit? atom n) ts f

variable {atom}

theorem reads_conjunction_of_unit {unit : Reader (Formula α)} {ts : List Token} {f : Formula α}
    (h : Reads anywhere unit ts f) :
    Reads (fun t => t.isWord "AND" || anywhere t) (conjunction? unit) ts f := by
  intro rest hrest
  rw [conjunction?, reads_separated_singleton h rest hrest]
  rfl

theorem reads_disjunction_of_conjunction {unit : Reader (Formula α)} {ts : List Token}
    {f : Formula α} (h : Reads (fun t => t.isWord "AND" || anywhere t) (conjunction? unit) ts f) :
    Reads joins (disjunction? unit) ts f := by
  intro rest hrest
  rw [disjunction?, reads_separated_singleton h rest hrest]
  rfl

theorem IsUnit.expresses {ts : List Token} {f : Formula α} (h : IsUnit atom ts f) :
    Expresses atom ts f := fun n hn =>
  reads_disjunction_of_conjunction (reads_conjunction_of_unit (h n hn))

theorem isUnit_atom {t : Token} {ts : List Token} {a : α}
    (h : Reads anywhere atom (t :: ts) a) (hn : t.isWord "NOT" = false) (hs : t ≠ .sign "(") :
    IsUnit atom (t :: ts) (.atom a) := by
  rintro (_ | n) hlen rest hrest
  · simp at hlen
  · rw [List.cons_append, unit?, expect?_eq_none (by simpa using hn),
      expect?_eq_none (by simpa using hs), ← List.cons_append, h rest hrest]
    rfl

theorem Expresses.isUnit {ts : List Token} {f : Formula α} (h : Expresses atom ts f) :
    IsUnit atom (.sign "(" :: (ts ++ [.sign ")"])) f := by
  rintro (_ | n) hlen rest hrest
  · simp at hlen
  · have hlen' : ts.length ≤ n := by simp at hlen; omega
    have hread := h n hlen' (.sign ")" :: rest) rfl
    rw [List.cons_append, unit?, expect?_eq_none rfl, expect?_cons rfl, List.append_assoc,
      List.singleton_append]
    simp only [hread, Option.bind_eq_bind, Option.bind_some]
    rfl

theorem IsUnit.not {ts : List Token} {f : Formula α} (h : IsUnit atom ts f) :
    IsUnit atom (.word "NOT" :: ts) (.not f) := by
  rintro (_ | n) hlen rest hrest
  · simp at hlen
  · rw [List.cons_append, unit?, expect?_cons rfl]
    simp only [h n (by simpa using hlen) rest hrest, Option.bind_eq_bind, Option.bind_some]
    rfl

theorem reads_units {n : Nat} {tss : List (List Token)} {fs : List (Formula α)}
    (h : List.Forall₂ (IsUnit atom) tss fs) (hn : ∀ ts ∈ tss, ts.length ≤ n) :
    List.Forall₂ (Reads anywhere (unit? atom n)) tss fs := by
  induction h with
  | nil => exact .nil
  | cons hf _ ih =>
    exact .cons (hf n (hn _ (by simp))) (ih fun ts hts => hn ts (List.mem_cons_of_mem _ hts))

theorem expresses_join (c : Connective) {tss : List (List Token)} {fs : List (Formula α)}
    (h : List.Forall₂ (IsUnit atom) tss fs) (hne : fs ≠ []) :
    Expresses atom ([connectiveToken c].intercalate tss) (.joined c fs) := by
  intro n hn
  have hunits := reads_units h fun ts hts =>
    Nat.le_trans (length_le_length_intercalate_of_mem hts) hn
  cases c with
  | and =>
    refine reads_disjunction_of_conjunction fun rest hrest => ?_
    rw [conjunction?, reads_separated (t := connectiveToken .and) rfl rfl hunits hne rest hrest]
    rfl
  | or =>
    intro rest hrest
    have hparts := hunits.imp fun _ _ => reads_conjunction_of_unit
    rw [disjunction?, reads_separated (t := connectiveToken .or) rfl rfl hparts hne rest hrest]
    rfl

theorem Expresses.reads_formula {ts : List Token} {f : Formula α} (h : Expresses atom ts f) :
    Reads joins (formula? atom) ts f := fun rest hrest =>
  h _ (by simp) rest hrest

/-! ## Texts of formulas -/

section Text

open Lexer

variable {quotes : List Quote}

variable (quotes) (atom : Reader α)

/-- The text is read as the formula. -/
def Writes (text : String) (f : Formula α) : Prop :=
  ∃ ts, Spells quotes text ts ∧ Expresses atom ts f

variable {quotes} {atom}

theorem closes_parenthesized {text : String} {ts : List Token} (h : Spells quotes text ts) :
    Closes quotes ("(" ++ text ++ ")") (.sign "(" :: (ts ++ [.sign ")"])) := by
  have hopen : Closes quotes "(" [.sign "("] := rfl
  have hclose : Closes quotes ")" [.sign ")"] := rfl
  exact (hopen.append h).append_closes hclose rfl

/-- **Parts in parentheses are joined as they were meant.** -/
theorem writes_join (c : Connective) {parts : List String} {fs : List (Formula α)}
    (h : List.Forall₂ (Writes quotes atom) parts fs) (hne : fs ≠ []) :
    Writes quotes atom
      (String.intercalate (" " ++ c.name ++ " ") (parts.map fun p => "(" ++ p ++ ")"))
      (.joined c fs) := by
  have hparts : ∃ tss, List.Forall₂ (Spells quotes) (parts.map fun p => "(" ++ p ++ ")") tss ∧
      List.Forall₂ (IsUnit atom) tss fs := by
    clear hne
    induction h with
    | nil => exact ⟨[], .nil, .nil⟩
    | cons hp _ ih =>
      obtain ⟨ts, hs, he⟩ := hp
      obtain ⟨tss, hss, hes⟩ := ih
      exact ⟨_ :: tss, .cons (closes_parenthesized hs).spells hss, .cons he.isUnit hes⟩
  obtain ⟨tss, hss, hes⟩ := hparts
  have hsep : Closes quotes (" " ++ c.name ++ " ") [connectiveToken c] := by cases c <;> rfl
  have hcut : StartsCutting (" " ++ c.name ++ " ") := by cases c <;> rfl
  exact ⟨_, spells_intercalate hsep hcut hss, expresses_join c hes hne⟩

/-- **A negated text in parentheses is read as it was meant.** -/
theorem writes_not {text : String} {f : Formula α} (h : Writes quotes atom text f) :
    Writes quotes atom ("NOT (" ++ text ++ ")") (.not f) := by
  obtain ⟨ts, hs, he⟩ := h
  refine ⟨.word "NOT" :: .sign "(" :: (ts ++ [.sign ")"]), ?_, he.isUnit.not.expresses⟩
  have hopen : Closes quotes "NOT (" [.word "NOT", .sign "("] := rfl
  have hclose : Closes quotes ")" [.sign ")"] := rfl
  exact ((hopen.append hs).append_closes hclose rfl).spells

theorem writes_atom {text : String} {t : Token} {ts : List Token} {a : α}
    (hs : Spells quotes text (t :: ts)) (h : Reads anywhere atom (t :: ts) a)
    (hn : t.isWord "NOT" = false) (hp : t ≠ .sign "(") : Writes quotes atom text (.atom a) :=
  ⟨_, hs, (isUnit_atom h hn hp).expresses⟩

end Text

end Grammar

end PortableQuery
