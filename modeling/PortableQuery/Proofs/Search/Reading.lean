import PortableQuery.Proofs.Formula
import PortableQuery.Proofs.Json.Plain
import PortableQuery.Proofs.Search.Wildcard

set_option autoImplicit false

/-!
# What search queries mean

A query is read as a formula over queries on single paths, and these are relations on the terms of
a document. How the store compares two terms is its own affair: everything here holds for any
relation between the terms of documents and those of queries.
-/

namespace PortableQuery.Search

/-! ## The grammar -/

/-- A query on a single path, or on the identity. -/
inductive Leaf where
  | term (path : String) (value : Json)
  | terms (path : String) (values : List Json)
  | range (path : String) (bounds : List (Operator × Json))
  | wildcard (path : String) (wildcard : String)
  | ids (values : List Json)

/-- The operator of a bound. -/
def boundOperator? (name : String) : Option Operator :=
  if name = "gt" then some .greater
  else if name = "gte" then some .greaterOrEqual
  else if name = "lt" then some .less
  else if name = "lte" then some .lessOrEqual
  else none

/-- A bound of a range. -/
def bound? (m : Named Json) : Option (Operator × Json) :=
  (boundOperator? m.name).map fun o => (o, m.value)

/-- The items of an array. -/
def items? : Json → Option (List Json)
  | .array items => some items
  | _ => none

/-- The bounds of a range. -/
def bounds? : Json → Option (List (Operator × Json))
  | .object members => members.mapM bound?
  | _ => none

/-- The query of a kind under a name, which is the path but for identities. -/
def leaf? (kind name : String) (body : Json) : Option Leaf :=
  if kind = "term" then some (.term name body)
  else if kind = "terms" then (items? body).map (.terms name)
  else if kind = "range" then (bounds? body).map (.range name)
  else if kind = "wildcard" then ((body.member? "value").bind Json.string?).map (.wildcard name)
  else if kind = "ids" ∧ name = "values" then (items? body).map .ids
  else none

/-- How queries that occur together are joined: all of them hold, at least one does, or none. An
alternative counts only where one match is required. -/
def occurrence? (minimum : Option Json) (name : String) (fs : List (Formula Leaf)) :
    Option (Formula Leaf) :=
  if name = "filter" ∨ name = "must" then some (.join .and fs)
  else if name = "must_not" then some (.not (.join .or fs))
  else if name = "should" then
    match minimum with
    | some (.int 1) => some (.join .or fs)
    | _ => none
  else none

mutual

/-- The formula of a query. -/
def read? : Json → Option (Formula Leaf)
  | .object [⟨kind, .object members⟩] =>
    if kind = "bool" then
      (readOccurrences? (Named.get? "minimum_should_match" members) members).map (.join .and)
    else
      match members with
      | [⟨name, body⟩] => (leaf? kind name body).map .atom
      | _ => none
  | _ => none
termination_by structural j => j

/-- The formulas of several queries. -/
def readAll? : List Json → Option (List (Formula Leaf))
  | [] => some []
  | j :: js => do
    let f ← read? j
    let fs ← readAll? js
    pure (f :: fs)
termination_by structural js => js

/-- The formulas of queries that occur together, by the way in which they do. -/
def readOccurrences? (minimum : Option Json) : List (Named Json) → Option (List (Formula Leaf))
  | [] => some []
  | ⟨name, .array queries⟩ :: ms => do
    let fs ← readAll? queries
    let f ← occurrence? minimum name fs
    let gs ← readOccurrences? minimum ms
    pure (f :: gs)
  | ⟨name, .int _⟩ :: ms =>
    if name = "minimum_should_match" then readOccurrences? minimum ms else none
  | _ => none
termination_by structural ms => ms

end

theorem readAll?_eq_some {js : List Json} {fs : List (Formula Leaf)}
    (h : List.Forall₂ (fun j f => read? j = some f) js fs) : readAll? js = some fs := by
  induction h with
  | nil => rfl
  | cons hj _ ih => simp [readAll?, hj, ih]

/-! ## Documents -/

/-- A document: its identity, and the terms of each of its fields. -/
structure Doc where
  id : Json
  fields : String → List Json

/-- The terms of a path. -/
def Doc.terms (d : Doc) (path : String) : List Json :=
  if path = "_id" then [d.id] else d.fields path

section Terms

variable (R : Operator → Json → Json → Prop)

/-- The query matches the document. Terms of the document that `R` relates to those of the query are
what it looks for; a range is about one term. -/
def Leaf.Matches (d : Doc) : Leaf → Prop
  | .term path value => ∃ x ∈ d.terms path, R .equals x value
  | .terms path values => ∃ x ∈ d.terms path, ∃ v ∈ values, R .equals x v
  | .range path bounds => ∃ x ∈ d.terms path, ∀ b ∈ bounds, R b.1 x b.2
  | .wildcard path w => ∃ s, .string s ∈ d.terms path ∧ Wildcard.Matches w.toList s.toList
  | .ids values => ∃ v ∈ values, R .equals d.id v

/-- The term compares with a value, that is, with its plain form. -/
def Compares (o : Operator) (x : Json) (v : Value) : Prop := ∃ j, v.plain? = some j ∧ R o x j

/-- One of the terms compares with the value as the operator says. -/
def Satisfies (xs : List Json) : Operator → Value → Prop
  | .oneOf, .list items => ∃ x ∈ xs, ∃ v ∈ items, Compares R .equals x v
  | .between, .list [lower, upper] =>
    ∃ x ∈ xs, Compares R .greaterOrEqual x lower ∧ Compares R .lessOrEqual x upper
  | .like, .text pattern => ∃ s, .string s ∈ xs ∧ Like.Matches pattern.toList s.toList
  | o, v => ∃ x ∈ xs, Compares R o x v

/-- The document satisfies a comparison of a condition; the identity has a field of its own. -/
def Doc.Satisfies (config : CompilerConfig) (d : Doc) (a : Comparison Value) : Prop :=
  Search.Satisfies R (d.terms (if a.field = config.idField then "_id" else a.field)) a.operator
    a.value

end Terms

end PortableQuery.Search
