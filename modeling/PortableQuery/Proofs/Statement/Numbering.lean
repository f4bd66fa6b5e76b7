import PortableQuery.Proofs.Statement.Grammar
import PortableQuery.Proofs.Statement.Mention

set_option autoImplicit false

/-!
# Placeholders that are told apart by their place

A question mark has no name: it stands for the value at its place among the question marks of the
statement, so before a statement is read its question marks are numbered, from the left. Question
marks inside quotes are not tokens and are not counted.
-/

namespace PortableQuery

namespace Lexer

/-- The question mark. -/
def mark : Token := .sign "?"

/-- The question mark at a place. -/
def numberedMark (n : Nat) : Token := .parameter '?' (toString n)

/-- How many question marks there are. -/
def marks (ts : List Token) : Nat := ts.count mark

/-- The tokens with their question marks numbered from `n` on. -/
def numbered : Nat → List Token → List Token
  | _, [] => []
  | n, t :: ts => if t = mark then numberedMark n :: numbered (n + 1) ts else t :: numbered n ts

@[simp] theorem marks_append (ts us : List Token) : marks (ts ++ us) = marks ts + marks us :=
  List.count_append

theorem numbered_append (n : Nat) (ts us : List Token) :
    numbered n (ts ++ us) = numbered n ts ++ numbered (n + marks ts) us := by
  induction ts generalizing n with
  | nil => rfl
  | cons t ts ih =>
    by_cases ht : t = mark
    · subst ht
      have hn : n + 1 + marks ts = n + marks (mark :: ts) := by
        rw [marks, marks, List.count_cons_self]
        omega
      rw [List.cons_append, numbered, if_pos rfl, ih, hn, numbered, if_pos rfl, List.cons_append]
    · have hn : marks (t :: ts) = marks ts := List.count_cons_of_ne ht
      rw [List.cons_append, numbered, if_neg ht, ih, hn, numbered, if_neg ht, List.cons_append]

/-- The tokens are without question marks. -/
def Unmarked (ts : List Token) : Prop := mark ∉ ts

instance (ts : List Token) : Decidable (Unmarked ts) := by
  unfold Unmarked
  infer_instance

section Unmarked

variable {ts : List Token}

theorem Unmarked.marks_eq (h : Unmarked ts) : marks ts = 0 := List.count_eq_zero.mpr h

theorem Unmarked.numbered_eq (h : Unmarked ts) (n : Nat) : numbered n ts = ts := by
  induction ts with
  | nil => rfl
  | cons t ts ih =>
    simp only [Unmarked, List.mem_cons, not_or] at h
    rw [numbered, if_neg (Ne.symm h.1), ih h.2]

theorem Unmarked.numbered_append (h : Unmarked ts) (n : Nat) (us : List Token) :
    numbered n (ts ++ us) = ts ++ numbered n us := by
  rw [Lexer.numbered_append, h.numbered_eq, h.marks_eq, Nat.add_zero]

theorem Spells.unmarked {quotes : List Quote} {text : String} (h : Spells quotes text ts)
    (hm : Mentions quotes text []) : Unmarked ts := by
  obtain ⟨us, hus, hnone⟩ := hm
  obtain rfl : ts = us := Option.some.inj (h.symm.trans hus)
  intro hmem
  cases List.filterMap_eq_nil_iff.mp hnone mark hmem

end Unmarked

end Lexer

namespace Grammar

open Lexer

/-- A question mark that is numbered. -/
def mark? : Reader Nat
  | .parameter sigil s :: ts =>
    if sigil = '?' ∧ s ≠ "" ∧ s.toList.all Char.isDigit then some (Digits.value s.toList, ts)
    else none
  | _ => none

theorem reads_mark (n : Nat) : Reads anywhere mark? [numberedMark n] n := by
  intro rest _
  have hdigits : (toString n).toList.all Char.isDigit = true :=
    List.all_eq_true.mpr fun _ hc => Digits.isDigit_of_mem_toString hc
  rw [List.singleton_append, numberedMark, mark?,
    if_pos ⟨rfl, Digits.toString_ne_empty n, hdigits⟩, Digits.value_toString]

/-- The tokens of question marks with commas between them. -/
def markList (count : Nat) : List Token :=
  [Token.sign ","].intercalate (List.replicate count [mark])

theorem markList_succ_succ (count : Nat) :
    markList (count + 2) = mark :: .sign "," :: markList (count + 1) := by
  simp only [markList, List.replicate_succ, List.intercalate_cons_cons]
  rfl

theorem spells_markList {quotes : List Quote} (count : Nat) :
    Spells quotes (String.intercalate ", " (List.replicate count "?")) (markList count) := by
  have hcomma : Closes quotes ", " [.sign ","] := rfl
  have hmark : Spells quotes "?" [mark] := rfl
  have hmarks : List.Forall₂ (Spells quotes) (List.replicate count "?")
      (List.replicate count [mark]) := by
    induction count with
    | zero => exact .nil
    | succ count ih => exact .cons hmark ih
  exact spells_intercalate hcomma rfl hmarks

theorem marks_markList (count : Nat) : marks (markList count) = count := by
  induction count with
  | zero => rfl
  | succ count ih =>
    cases count with
    | zero => rfl
    | succ count =>
      rw [markList_succ_succ, marks, List.count_cons_self, List.count_cons_of_ne (by decide)]
      exact congrArg (· + 1) ih

theorem numbered_markList (n count : Nat) : numbered n (markList count) =
    [Token.sign ","].intercalate ((List.range' n count).map fun i => [numberedMark i]) := by
  induction count generalizing n with
  | zero => rfl
  | succ count ih =>
    cases count with
    | zero => simp [markList, numbered, List.range'_succ]
    | succ count =>
      rw [markList_succ_succ, numbered, if_pos rfl, numbered, if_neg (by decide), ih]
      simp only [List.range'_succ, List.map_cons, List.intercalate_cons_cons]
      rfl

/-- **Question marks with commas between them are read as their numbers.** -/
theorem reads_marks (n : Nat) {count : Nat} (hcount : count ≠ 0) :
    Reads (fun t => isComma t || anywhere t) (separated? isComma mark?)
      (numbered n (markList count)) (List.range' n count) := by
  have hitems : List.Forall₂ (Reads anywhere mark?)
      ((List.range' n count).map fun i => [numberedMark i]) (List.range' n count) := by
    rw [List.forall₂_map_left_iff, List.forall₂_same]
    exact fun i _ => reads_mark i
  rw [numbered_markList]
  exact reads_separated rfl rfl hitems (by simpa using hcount)

end Grammar

end PortableQuery
