/-!
# Named things

A row, an embedded map, a user-defined value and a JSON object are all *ordered lists of named
things*. Nothing keeps a name from coming twice; looking a name up finds its first bearer.
-/

namespace PortableQuery

/-- A value under a name. -/
structure Named (α : Type) where
  name : String
  value : α
deriving DecidableEq, Repr

namespace Named

variable {α β : Type}

/-- The names, in order. -/
def names (xs : List (Named α)) : List String := xs.map (·.name)

/-- The first bearer of `name`. -/
def find? (name : String) (xs : List (Named α)) : Option (Named α) :=
  xs.find? (·.name == name)

/-- The value of the first bearer of `name`. -/
def get? (name : String) (xs : List (Named α)) : Option α :=
  (find? name xs).map (·.value)

/-- The list without the first bearer of `name`. -/
def erase (name : String) (xs : List (Named α)) : List (Named α) :=
  xs.eraseP (·.name == name)

/-- Give `name` the value `a`: in its old place if the name is there, at the end if it is not. -/
def put (name : String) (a : α) : List (Named α) → List (Named α)
  | [] => [⟨name, a⟩]
  | x :: xs => if x.name = name then ⟨name, a⟩ :: xs else x :: put name a xs

/-- The list with every repeated name merged into its first place, the last value winning. -/
def merge (xs : List (Named α)) : List (Named α) :=
  xs.foldl (fun done x => put x.name x.value done) []

@[simp] theorem names_nil : names ([] : List (Named α)) = [] := rfl

@[simp] theorem names_cons (x : Named α) (xs : List (Named α)) :
    names (x :: xs) = x.name :: names xs := rfl

/-- **Putting a name adds it at the end or changes no name at all.** -/
theorem names_put (name : String) (a : α) (xs : List (Named α)) :
    names (put name a xs) = if name ∈ names xs then names xs else names xs ++ [name] := by
  induction xs with
  | nil => rfl
  | cons x xs ih =>
    by_cases h : x.name = name
    · simp [put, h]
    · simp only [put, if_neg h, names_cons, ih, List.mem_cons, Ne.symm h, false_or]
      split <;> rfl

/-- Putting keeps names distinct. -/
theorem nodup_names_put {name : String} {a : α} {xs : List (Named α)} (h : (names xs).Nodup) :
    (names (put name a xs)).Nodup := by
  rw [names_put]
  split
  · exact h
  · next hn =>
    refine List.nodup_append.mpr ⟨h, by simp, ?_⟩
    intro b hb c hc
    rw [List.mem_singleton.mp hc]
    rintro rfl
    exact hn hb

/-- Names are distinct and none was seen, if this is so of the first one and, the first one being
seen, of the others. -/
theorem nodup_and_unseen_cons {x : Named α} {xs : List (Named α)} {seen : List String} :
    (names (x :: xs)).Nodup ∧ (∀ y ∈ x :: xs, y.name ∉ seen) ↔
      x.name ∉ seen ∧ (names xs).Nodup ∧ ∀ y ∈ xs, y.name ∉ x.name :: seen := by
  rw [List.forall_mem_cons, names_cons, List.nodup_cons]
  simp only [names, List.mem_map, List.mem_cons, not_or, not_exists, not_and]
  constructor
  · rintro ⟨⟨hname, hnodup⟩, hseen, hfresh⟩
    exact ⟨hseen, hnodup, fun y hy => ⟨hname y hy, hfresh y hy⟩⟩
  · rintro ⟨hseen, hnodup, hfresh⟩
    exact ⟨⟨fun y hy => (hfresh y hy).1, hnodup⟩, hseen, fun y hy => (hfresh y hy).2⟩

end Named

end PortableQuery
