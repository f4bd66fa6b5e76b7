import PortableQuery.Json.Reader

set_option autoImplicit false

/-!
# Bounds of documents

A text is read with every integer in 64 bits, signed or unsigned, and with 127 arrays and objects at
most inside one another.
-/

namespace PortableQuery

/-! ## Partial computations -/

/-- If the computation gives a result, it has the property. -/
def YieldsOnly {α : Type} (P : α → Prop) (x : Option α) : Prop := ∀ a, x = some a → P a

namespace YieldsOnly

variable {α β : Type} {P : α → Prop} {Q : β → Prop}

theorem none : YieldsOnly P none := nofun

theorem some {a : α} (h : P a) : YieldsOnly P (some a) := by
  rintro _ ⟨⟩
  exact h

theorem bind {x : Option α} {f : α → Option β} (hx : YieldsOnly P x)
    (hf : ∀ a, P a → YieldsOnly Q (f a)) : YieldsOnly Q (x >>= f) := by
  cases x with
  | none => exact .none
  | some a => exact hf a (hx a rfl)

theorem map {x : Option α} {f : α → β} (hx : YieldsOnly P x) (hf : ∀ a, P a → Q (f a)) :
    YieldsOnly Q (x.map f) := by
  cases x with
  | none => exact .none
  | some a => exact .some (hf a (hx a rfl))

theorem any (x : Option α) : YieldsOnly (fun _ => True) x := fun _ _ => trivial

theorem mapM {f : α → Option β} {xs : List α} (hf : ∀ x ∈ xs, YieldsOnly Q (f x)) :
    YieldsOnly (fun ys => ∀ y ∈ ys, Q y) (xs.mapM f) := by
  induction xs with
  | nil => exact .some (List.forall_mem_nil _)
  | cons x xs ih =>
    rw [List.forall_mem_cons] at hf
    rw [List.mapM_cons]
    exact hf.1.bind fun y hy => (ih hf.2).bind fun ys hys =>
      .some (List.forall_mem_cons.mpr ⟨hy, hys⟩)

end YieldsOnly

/-! ## Texts -/

/-- Every integer in it has 64 bits, signed or unsigned. -/
inductive RawJson.Bounded : RawJson → Prop
  | null : Bounded .null
  | bool (b : Bool) : Bounded (.bool b)
  | int {i : Int} (low : -2 ^ 63 ≤ i) (high : i < 2 ^ 64) : Bounded (.int i)
  | double (d : FiniteDouble) : Bounded (.double d)
  | string (s : String) : Bounded (.string s)
  | array {items : List RawJson} (h : ∀ j ∈ items, Bounded j) : Bounded (.array items)
  | object {members : List (Named RawJson)} (h : ∀ m ∈ members, Bounded m.value) :
    Bounded (.object members)
  | beyond : Bounded .beyond

namespace RawJson

mutual

/-- How many arrays and objects stand inside one another. -/
def depth : RawJson → Nat
  | .array items => itemsDepth items + 1
  | .object members => membersDepth members + 1
  | _ => 0
termination_by structural j => j

/-- The greatest depth of an item. -/
def itemsDepth : List RawJson → Nat
  | [] => 0
  | j :: js => max (depth j) (itemsDepth js)
termination_by structural js => js

/-- The greatest depth of the value of a member. -/
def membersDepth : List (Named RawJson) → Nat
  | [] => 0
  | ⟨_, j⟩ :: ms => max (depth j) (membersDepth ms)
termination_by structural ms => ms

end

variable {d : Nat}

@[simp] theorem depth_array_le {items : List RawJson} :
    (array items).depth ≤ d + 1 ↔ ∀ j ∈ items, j.depth ≤ d := by
  rw [depth, Nat.add_le_add_iff_right]
  induction items with
  | nil => simp [itemsDepth]
  | cons j js ih => rw [itemsDepth, Nat.max_le, List.forall_mem_cons, ih]

@[simp] theorem depth_object_le {members : List (Named RawJson)} :
    (object members).depth ≤ d + 1 ↔ ∀ m ∈ members, m.value.depth ≤ d := by
  rw [depth, Nat.add_le_add_iff_right]
  induction members with
  | nil => simp [membersDepth]
  | cons m ms ih => rw [membersDepth, Nat.max_le, List.forall_mem_cons, ih]

/-- The integers are bounded, and so is the depth. -/
structure Within (depth : Nat) (j : RawJson) : Prop where
  bounded : j.Bounded
  depth_le : j.depth ≤ depth

theorem Within.array {items : List RawJson} (h : (array items).Within d) :
    ∃ d', d = d' + 1 ∧ ∀ j ∈ items, j.Within d' := by
  obtain ⟨hbounded, hdepth⟩ := h
  cases d with
  | zero => exact absurd hdepth (by simp [depth])
  | succ d' =>
    cases hbounded with
    | array hitems => exact ⟨d', rfl, fun j hj => ⟨hitems j hj, depth_array_le.mp hdepth j hj⟩⟩

theorem Within.object {members : List (Named RawJson)} (h : (object members).Within d) :
    ∃ d', d = d' + 1 ∧ ∀ m ∈ members, m.value.Within d' := by
  obtain ⟨hbounded, hdepth⟩ := h
  cases d with
  | zero => exact absurd hdepth (by simp [depth])
  | succ d' =>
    cases hbounded with
    | object hmembers =>
      exact ⟨d', rfl, fun m hm => ⟨hmembers m hm, depth_object_le.mp hdepth m hm⟩⟩

end RawJson

namespace JsonReader

open RawJson

theorem within_ofDouble (depth : Nat) (x : Option FiniteDouble) : (ofDouble x).Within depth := by
  cases x with
  | none => exact ⟨.beyond, Nat.zero_le _⟩
  | some d => exact ⟨.double d, Nat.zero_le _⟩

theorem within_ofInteger (depth : Nat) (m : NumberReading) (negative : Bool) (ds : List Char) :
    (ofInteger m negative ds).Within depth := by
  unfold ofInteger
  dsimp only
  split
  · split
    · exact ⟨.int (by omega) (by omega), Nat.zero_le _⟩
    · exact within_ofDouble _ _
  · split
    · exact ⟨.int (by omega) (by omega), Nat.zero_le _⟩
    · exact within_ofDouble _ _

theorem within_ofString (depth : Nat) (s : Option String) : (ofString s).Within depth := by
  cases s with
  | none => exact ⟨.beyond, Nat.zero_le _⟩
  | some s => exact ⟨.string s, Nat.zero_le _⟩

theorem within_atDepth {j : RawJson} {depth : Nat} (h : j.Within (depth - 1 + 1)) :
    (atDepth depth j).Within depth := by
  unfold atDepth
  split
  · exact ⟨.beyond, Nat.zero_le _⟩
  · exact ⟨h.bounded, by have := h.depth_le; omega⟩

theorem within_array {items : List RawJson} {depth : Nat} (h : ∀ j ∈ items, j.Within depth) :
    (array items).Within (depth + 1) :=
  ⟨.array fun j hj => (h j hj).bounded, depth_array_le.mpr fun j hj => (h j hj).depth_le⟩

theorem within_ofMembers {members : List (Option String × RawJson)} {depth : Nat}
    (h : ∀ m ∈ members, m.2.Within depth) : (ofMembers members).Within (depth + 1) := by
  unfold ofMembers
  split
  · next ms hms =>
    have hvalues : ∀ m ∈ ms, m.value.Within depth := by
      refine YieldsOnly.mapM (fun m hm => ?_) ms hms
      exact (YieldsOnly.any m.1).map fun _ _ => h m hm
    exact ⟨.object fun m hm => (hvalues m hm).bounded,
      depth_object_le.mpr fun m hm => (hvalues m hm).depth_le⟩
  · exact ⟨.beyond, Nat.zero_le _⟩

theorem yieldsOnly_number? (depth : Nat) (m : NumberReading) (cs : List Char) :
    YieldsOnly (·.1.Within depth) (number? m cs) := by
  have hunsigned (negative : Bool) (cs : List Char) :
      YieldsOnly (·.1.Within depth) (unsigned? m negative cs) := by
    unfold unsigned?
    dsimp only
    split
    · exact nofun
    · refine YieldsOnly.bind (.any _) fun _ _ => YieldsOnly.bind (.any _) fun _ _ => ?_
      split
      · exact .some (within_ofInteger _ _ _ _)
      · exact .some (within_ofDouble _ _)
  unfold number?
  split <;> exact hunsigned _ _

/-- What the reader gives with this fuel is within the bounds: values, items and members alike. -/
structure Bounds (m : NumberReading) (fuel : Nat) : Prop where
  value (depth : Nat) (cs : List Char) : YieldsOnly (·.1.Within depth) (value? m fuel depth cs)
  items (depth : Nat) (cs : List Char) :
    YieldsOnly (∀ j ∈ ·.1, j.Within depth) (items? m fuel depth cs)
  members (depth : Nat) (cs : List Char) :
    YieldsOnly (∀ m ∈ ·.1, m.2.Within depth) (members? m fuel depth cs)

section Step

variable {m : NumberReading} {fuel : Nat} (h : Bounds m fuel) (depth : Nat) (cs : List Char)

include h

theorem Bounds.value_succ : YieldsOnly (·.1.Within depth) (value? m (fuel + 1) depth cs) := by
  cases cs with
  | nil => exact nofun
  | cons c cs =>
    rw [value?]
    split
    · exact (YieldsOnly.any _).map fun _ _ => within_ofString _ _
    split
    · split
      · exact .some (within_atDepth (within_array (List.forall_mem_nil _)))
      · exact (h.items _ _).map fun _ hr => within_atDepth (within_array hr)
    split
    · split
      · exact .some (within_atDepth (within_ofMembers (List.forall_mem_nil _)))
      · exact (h.members _ _).map fun _ hr => within_atDepth (within_ofMembers hr)
    split
    · exact (YieldsOnly.any _).map fun _ _ => ⟨.null, Nat.zero_le _⟩
    split
    · exact (YieldsOnly.any _).map fun _ _ => ⟨.bool true, Nat.zero_le _⟩
    split
    · exact (YieldsOnly.any _).map fun _ _ => ⟨.bool false, Nat.zero_le _⟩
    · exact yieldsOnly_number? _ _ _

theorem Bounds.items_succ :
    YieldsOnly (∀ j ∈ ·.1, j.Within depth) (items? m (fuel + 1) depth cs) := by
  rw [items?]
  refine (h.value depth cs).bind fun r hr => ?_
  dsimp only
  split
  · exact (h.items _ _).bind fun _ hrs => .some (List.forall_mem_cons.mpr ⟨hr, hrs⟩)
  · exact .some (List.forall_mem_singleton.mpr hr)
  · exact .none

theorem Bounds.members_succ :
    YieldsOnly (∀ m ∈ ·.1, m.2.Within depth) (members? m (fuel + 1) depth cs) := by
  rw [members?.eq_def]
  dsimp only
  split
  · refine YieldsOnly.bind (.any _) fun r _ => ?_
    split
    · refine (h.value _ _).bind fun _ hr => ?_
      split
      · exact (h.members _ _).bind fun _ hrs => .some (List.forall_mem_cons.mpr ⟨hr, hrs⟩)
      · exact .some (List.forall_mem_singleton.mpr hr)
      · exact .none
    · exact .none
  · exact .none

end Step

/-- **What the reader gives is within the bounds**, whatever the fuel. -/
theorem bounds (m : NumberReading) (fuel : Nat) : Bounds m fuel := by
  induction fuel with
  | zero => exact ⟨fun _ _ => nofun, fun _ _ => nofun, fun _ _ => nofun⟩
  | succ fuel ih => exact ⟨ih.value_succ, ih.items_succ, ih.members_succ⟩

end JsonReader

/-- **The raw JSON of a text is within the bounds.** -/
theorem RawJson.within_of_readBy? (m : NumberReading) (s : String) :
    YieldsOnly (Within JsonReader.depthLimit) (readBy? m s) := by
  unfold readBy?
  refine ((JsonReader.bounds m _).value _ _).bind fun r hr => ?_
  dsimp only
  split
  · exact .some hr
  · exact .none

/-! ## Values -/

namespace Json

theorem rawItems_eq_map (js : List Json) : rawItems js = js.map raw := by
  induction js with
  | nil => rfl
  | cons j js ih => rw [rawItems, ih, List.map_cons]

theorem rawMembers_eq_map (ms : List (Named Json)) :
    rawMembers ms = ms.map fun m => ⟨m.name, m.value.raw⟩ := by
  induction ms with
  | nil => rfl
  | cons m ms ih => rw [rawMembers, ih, List.map_cons]

end Json

namespace Named

variable {α : Type} {P : α → Prop}

theorem forall_put {name : String} {a : α} {xs : List (Named α)} (ha : P a)
    (h : ∀ x ∈ xs, P x.value) : ∀ x ∈ put name a xs, P x.value := by
  induction xs with
  | nil => exact List.forall_mem_singleton.mpr ha
  | cons x xs ih =>
    rw [List.forall_mem_cons] at h
    rw [put]
    split
    · exact List.forall_mem_cons.mpr ⟨ha, h.2⟩
    · exact List.forall_mem_cons.mpr ⟨h.1, ih h.2⟩

theorem forall_merge {xs : List (Named α)} (h : ∀ x ∈ xs, P x.value) :
    ∀ x ∈ merge xs, P x.value := by
  have hfold (done : List (Named α)) (hdone : ∀ x ∈ done, P x.value) :
      ∀ x ∈ xs.foldl (fun done x => put x.name x.value done) done, P x.value := by
    induction xs generalizing done with
    | nil => exact hdone
    | cons x xs ih =>
      rw [List.forall_mem_cons] at h
      exact ih h.2 _ (forall_put h.1 hdone)
  exact hfold [] (List.forall_mem_nil _)

end Named

namespace RawJson

variable {read? : String → Option Json}

mutual

theorem yieldsOnly_toJson? (hread : ∀ s, YieldsOnly (·.raw.Bounded) (read? s)) :
    ∀ {j : RawJson}, j.Bounded → YieldsOnly (·.raw.Bounded) (toJson? read? j)
  | .null, _ => .some .null
  | .bool b, _ => .some (.bool b)
  | .int _, .int low high => .some (.int low high)
  | .double d, _ => .some (.double d)
  | .string s, _ => .some (.string s)
  | .array items, .array h => by
    rw [toJson?]
    exact (yieldsOnly_itemsToJson? hread h).map fun js hjs => by
      rw [Json.raw, Json.rawItems_eq_map]
      exact .array (List.forall_mem_map.mpr hjs)
  | .object members, .object h => by
    rw [toJson?]
    split
    · exact (YieldsOnly.any _).bind fun s _ => hread s
    · exact (yieldsOnly_membersToJson? hread h).map fun ms hms => by
        have hmerged : ∀ m ∈ Named.merge ms, (Json.raw m.value).Bounded :=
          Named.forall_merge (P := fun j => (Json.raw j).Bounded) hms
        rw [Json.objectOf, Json.raw, Json.rawMembers_eq_map]
        exact .object (List.forall_mem_map.mpr hmerged)
  | .beyond, _ => .none
termination_by structural j => j

theorem yieldsOnly_itemsToJson? (hread : ∀ s, YieldsOnly (·.raw.Bounded) (read? s)) :
    ∀ {js : List RawJson}, (∀ j ∈ js, j.Bounded) →
      YieldsOnly (∀ j ∈ ·, j.raw.Bounded) (itemsToJson? read? js)
  | [], _ => .some (List.forall_mem_nil _)
  | j :: js, h => by
    rw [List.forall_mem_cons] at h
    rw [itemsToJson?]
    exact (yieldsOnly_toJson? hread h.1).bind fun k hk => (yieldsOnly_itemsToJson? hread h.2).bind
      fun ks hks => .some (List.forall_mem_cons.mpr ⟨hk, hks⟩)
termination_by structural js => js

theorem yieldsOnly_membersToJson? (hread : ∀ s, YieldsOnly (·.raw.Bounded) (read? s)) :
    ∀ {ms : List (Named RawJson)}, (∀ m ∈ ms, m.value.Bounded) →
      YieldsOnly (∀ m ∈ ·, m.value.raw.Bounded) (membersToJson? read? ms)
  | [], _ => .some (List.forall_mem_nil _)
  | ⟨name, j⟩ :: ms, h => by
    rw [List.forall_mem_cons] at h
    rw [membersToJson?]
    exact (yieldsOnly_toJson? hread h.1).bind fun k hk => (yieldsOnly_membersToJson? hread h.2).bind
      fun ks hks => .some (List.forall_mem_cons.mpr ⟨hk, hks⟩)
termination_by structural ms => ms

end

end RawJson

/-- **The value of a text is bounded.** -/
theorem Json.bounded_of_parseBy? (m : NumberReading) (s : String) :
    YieldsOnly (·.raw.Bounded) (parseBy? m s) := by
  have hwithin (levels : Nat) (s : String) :
      YieldsOnly (·.raw.Bounded) (parseWithin? m levels s) := by
    induction levels generalizing s with
    | zero => exact .none
    | succ levels ih =>
      rw [parseWithin?]
      exact (RawJson.within_of_readBy? m s).bind fun _ hj =>
        RawJson.yieldsOnly_toJson? ih hj.bounded
  exact hwithin _ s

end PortableQuery
