import PortableQuery.Query

set_option autoImplicit false

/-!
# What an order means

An order compares rows by its entries in turn, so a later entry on a field that is already listed
has no effect. Two orders mean the same if they compare all rows alike, whatever the values are and
however these are compared.
-/

namespace PortableQuery

/-- The result of a comparison, as it counts in a direction. -/
def Direction.apply : Direction → Ordering → Ordering
  | .ascending, o => o
  | .descending, o => o.swap

@[simp] theorem Direction.apply_eq_eq {d : Direction} {o : Ordering} :
    d.apply o = .eq ↔ o = .eq := by
  cases d <;> cases o <;> decide

theorem Direction.eq_of_apply_lt {d d' : Direction} (h : d.apply .lt = d'.apply .lt) : d = d' := by
  cases d <;> cases d' <;> first | rfl | cases h

/-! ## Rows in order -/

section Rows

variable {V : Type} (cmp : V → V → Ordering) (x y : String → V)

/-- Two rows, compared by the entries of an order in turn. -/
def compareBy : List SortKey → Ordering
  | [] => .eq
  | k :: ks => (k.direction.apply (cmp (x k.field) (y k.field))).then (compareBy ks)

end Rows

/-- The two orders compare all rows alike. -/
def SameOrder (ks ks' : List SortKey) : Prop :=
  ∀ (V : Type) (cmp : V → V → Ordering) (x y : String → V),
    compareBy cmp x y ks = compareBy cmp x y ks'

/-- The entries that have an effect: the first one of every field. -/
def effective : List SortKey → List SortKey
  | [] => []
  | k :: ks => k :: (effective ks).filter (·.field ≠ k.field)

variable {V : Type} {cmp : V → V → Ordering} {x y : String → V} {ks ks' : List SortKey}

/-- Entries on a field in which two rows are equal have no effect on these. -/
theorem compareBy_filter {f : String} (hf : cmp (x f) (y f) = .eq) (ks : List SortKey) :
    compareBy cmp x y (ks.filter (·.field ≠ f)) = compareBy cmp x y ks := by
  induction ks with
  | nil => rfl
  | cons k ks ih =>
    by_cases hk : k.field = f
    · rw [List.filter_cons_of_neg (by simpa using hk), ih, compareBy, hk,
        Direction.apply_eq_eq.mpr hf]
      rfl
    · rw [List.filter_cons_of_pos (by simpa using hk), compareBy, compareBy, ih]

/-- **Later entries on a field have no effect.** -/
theorem compareBy_effective (ks : List SortKey) :
    compareBy cmp x y (effective ks) = compareBy cmp x y ks := by
  induction ks with
  | nil => rfl
  | cons k ks ih =>
    rw [effective, compareBy, compareBy]
    cases hk : k.direction.apply (cmp (x k.field) (y k.field)) with
    | eq => rw [compareBy_filter (Direction.apply_eq_eq.mp hk), ih]
    | lt | gt => rfl

theorem nodup_fields_effective (ks : List SortKey) : ((effective ks).map (·.field)).Nodup := by
  induction ks with
  | nil => exact List.nodup_nil
  | cons k ks ih =>
    rw [effective, List.map_cons, List.nodup_cons]
    refine ⟨fun hmem => ?_, ih.sublist (List.filter_sublist.map _)⟩
    obtain ⟨a, ha, hfield⟩ := List.mem_map.mp hmem
    exact of_decide_eq_true (List.mem_filter.mp ha).2 hfield

theorem effective_eq_self (h : (ks.map (·.field)).Nodup) : effective ks = ks := by
  induction ks with
  | nil => rfl
  | cons k ks ih =>
    rw [List.map_cons, List.nodup_cons] at h
    rw [effective, ih h.2, List.filter_eq_self.mpr fun a ha => ?_]
    exact decide_eq_true fun hfield => h.1 (List.mem_map.mpr ⟨a, ha, hfield⟩)

theorem mem_fields_effective {f : String} {ks : List SortKey} :
    f ∈ (effective ks).map (·.field) ↔ f ∈ ks.map (·.field) := by
  induction ks with
  | nil => rfl
  | cons k ks ih =>
    rw [effective, List.map_cons, List.map_cons, List.mem_cons, List.mem_cons]
    refine Decidable.or_congr_right' fun hf => ?_
    rw [← ih, List.mem_map, List.mem_map]
    constructor
    · rintro ⟨a, ha, rfl⟩
      exact ⟨a, (List.mem_filter.mp ha).1, rfl⟩
    · rintro ⟨a, ha, rfl⟩
      exact ⟨a, List.mem_filter.mpr ⟨ha, decide_eq_true hf⟩, rfl⟩

theorem effective_concat (ks : List SortKey) (k : SortKey) :
    effective (ks ++ [k]) =
      if k.field ∈ ks.map (·.field) then effective ks else effective ks ++ [k] := by
  induction ks with
  | nil => rfl
  | cons a ks ih =>
    rw [List.cons_append, effective, ih, effective, List.map_cons]
    by_cases ha : k.field = a.field
    · rw [if_pos (List.mem_cons.mpr (.inl ha))]
      split
      · rfl
      · simp [ha]
    · by_cases hk : k.field ∈ ks.map (·.field)
      · rw [if_pos hk, if_pos (List.mem_cons_of_mem _ hk)]
      · rw [if_neg hk, if_neg (List.not_mem_cons_of_ne_of_not_mem ha hk)]
        simp [ha]

/-! ## Orders that mean the same -/

/-- The two orders compare rows of numbers alike. -/
def AlikeOnNumbers (ks ks' : List SortKey) : Prop :=
  ∀ x y : String → Nat, compareBy compare x y ks = compareBy compare x y ks'

theorem compareBy_congr {x' y' : String → V}
    (h : ∀ k ∈ ks, x k.field = x' k.field ∧ y k.field = y' k.field) :
    compareBy cmp x y ks = compareBy cmp x' y' ks := by
  induction ks with
  | nil => rfl
  | cons k ks ih =>
    rw [List.forall_mem_cons] at h
    rw [compareBy, compareBy, h.1.1, h.1.2, ih h.2]

/-- A row with one field set. -/
def withField (x : String → V) (f : String) (v : V) : String → V :=
  fun g => if g = f then v else x g

/-- Orders that start with the same entry, and list its field only there, go on alike if they
compare alike. -/
theorem tail_alike {k : SortKey} (hk : k.field ∉ ks.map (·.field))
    (hk' : k.field ∉ ks'.map (·.field)) (h : AlikeOnNumbers (k :: ks) (k :: ks')) :
    AlikeOnNumbers ks ks' := by
  intro x y
  -- the two rows, made equal in the field of `k`, are told apart by the other entries only
  have hrest {ls : List SortKey} (hls : k.field ∉ ls.map (·.field)) :
      compareBy compare (withField x k.field 0) (withField y k.field 0) (k :: ls) =
        compareBy compare x y ls := by
    have hequal : compare (withField x k.field 0 k.field)
        (withField y k.field 0 k.field) = .eq := by simp [withField]
    rw [compareBy, Direction.apply_eq_eq.mpr hequal, Ordering.then]
    refine compareBy_congr fun a ha => ?_
    have hne : a.field ≠ k.field := fun heq => hls (List.mem_map.mpr ⟨a, ha, heq⟩)
    simp [withField, hne]
  rw [← hrest hk, ← hrest hk', h]

theorem compareBy_cons_of_ne {k : SortKey} (h : cmp (x k.field) (y k.field) ≠ .eq) :
    compareBy cmp x y (k :: ks) = k.direction.apply (cmp (x k.field) (y k.field)) := by
  rw [compareBy]
  cases hk : k.direction.apply (cmp (x k.field) (y k.field)) with
  | eq => exact absurd (Direction.apply_eq_eq.mp hk) h
  | lt | gt => rfl

/-- Orders that compare numbers alike start with the same entry. -/
theorem head_alike {k k' : SortKey} (h : AlikeOnNumbers (k :: ks) (k' :: ks')) : k = k' := by
  have hdirection : k.direction = k'.direction := by
    have hlt := h (fun _ => 0) (fun _ => 1)
    rw [compareBy_cons_of_ne (by decide), compareBy_cons_of_ne (by decide)] at hlt
    exact Direction.eq_of_apply_lt hlt
  have hfield : k.field = k'.field := by
    refine Decidable.byContradiction fun hne => ?_
    -- the first entries tell these two rows apart in opposite ways
    have hopposite := h (withField (fun _ => 0) k'.field 1) (withField (fun _ => 0) k.field 1)
    have hk : compare (withField (fun _ => 0) k'.field 1 k.field)
        (withField (fun _ => 0) k.field 1 k.field) = .lt := by
      simp only [withField, if_neg hne, if_true]
      decide
    have hk' : compare (withField (fun _ => 0) k'.field 1 k'.field)
        (withField (fun _ => 0) k.field 1 k'.field) = .gt := by
      simp only [withField, if_neg (Ne.symm hne), if_true]
      decide
    rw [compareBy_cons_of_ne (by simp [hk]), compareBy_cons_of_ne (by simp [hk']), hk, hk',
      hdirection] at hopposite
    cases hd : k'.direction <;> rw [hd] at hopposite <;> cases hopposite
  cases k
  cases k'
  rw [SortKey.mk.injEq]
  exact ⟨hfield, hdirection⟩

theorem eq_of_alike (hks : (ks.map (·.field)).Nodup) (hks' : (ks'.map (·.field)).Nodup)
    (h : AlikeOnNumbers ks ks') : ks = ks' := by
  have hnil {k : SortKey} {ls : List SortKey} :
      compareBy compare (fun _ => 0) (fun _ => 1) (k :: ls) ≠ .eq := by
    rw [compareBy_cons_of_ne (by decide), Ne, Direction.apply_eq_eq]
    decide
  induction ks generalizing ks' with
  | nil =>
    cases ks' with
    | nil => rfl
    | cons k' ks' => exact absurd (h _ _).symm hnil
  | cons k ks ih =>
    cases ks' with
    | nil => exact absurd (h _ _) hnil
    | cons k' ks' =>
      obtain rfl := head_alike h
      rw [List.map_cons, List.nodup_cons] at hks hks'
      rw [ih hks.2 hks'.2 (tail_alike hks.1 hks'.1 h)]

/-- **Two orders mean the same if and only if the same entries of them have an effect.** -/
theorem sameOrder_iff : SameOrder ks ks' ↔ effective ks = effective ks' := by
  constructor
  · intro h
    refine eq_of_alike (nodup_fields_effective ks) (nodup_fields_effective ks') fun x y => ?_
    rw [compareBy_effective, compareBy_effective, h]
  · intro h V cmp x y
    rw [← compareBy_effective ks, h, compareBy_effective]

/-! ## The last entries -/

/-- The first entry on a field. -/
def firstOn? (f : String) (ks : List SortKey) : Option SortKey := ks.find? (·.field == f)

/-- The last entry on a field. -/
def lastOn? (f : String) (ks : List SortKey) : Option SortKey := ks.reverse.find? (·.field == f)

/-- The order has the fields of the entries that have an effect, each with its last entry. -/
structure LastDirections (order ks : List SortKey) : Prop where
  fields : order.map (·.field) = (effective ks).map (·.field)
  last : ∀ k ∈ order, lastOn? k.field ks = some k

theorem firstOn?_of_mem_effective {k : SortKey} (h : k ∈ effective ks) :
    firstOn? k.field ks = some k := by
  induction ks with
  | nil => cases h
  | cons a ks ih =>
    rw [effective, List.mem_cons] at h
    obtain rfl | h := h
    · exact List.find?_cons_of_pos (by simp)
    · obtain ⟨hmem, hne⟩ := List.mem_filter.mp h
      have hne : k.field ≠ a.field := of_decide_eq_true hne
      exact (List.find?_cons_of_neg (by simpa using Ne.symm hne)).trans (ih hmem)

theorem mem_of_lastOn? {f : String} {k : SortKey} (h : lastOn? f ks = some k) : k ∈ ks :=
  List.mem_reverse.mp (List.mem_of_find?_eq_some h)

/-- **An order of last entries means the same as the list that they are from if and only if the
first and the last entry of every field are the same.** -/
theorem LastDirections.sameOrder_iff {order : List SortKey} (h : LastDirections order ks) :
    SameOrder order ks ↔ ∀ k ∈ ks, firstOn? k.field ks = lastOn? k.field ks := by
  have hself : effective order = order :=
    effective_eq_self (h.fields ▸ nodup_fields_effective ks)
  rw [PortableQuery.sameOrder_iff, hself]
  constructor
  · rintro rfl k hk
    have hfield := mem_fields_effective.mpr (List.mem_map.mpr ⟨k, hk, rfl⟩)
    obtain ⟨first, hfirst, heq⟩ := List.mem_map.mp hfield
    rw [← heq, firstOn?_of_mem_effective hfirst, h.last first hfirst]
  · intro hsame
    have hlast : order.map some = order.map fun k => firstOn? k.field ks :=
      List.map_congr_left fun k hk =>
        ((hsame k (mem_of_lastOn? (h.last k hk))).trans (h.last k hk)).symm
    have hfirst : (effective ks).map some = (effective ks).map fun k => firstOn? k.field ks :=
      List.map_congr_left fun k hk => (firstOn?_of_mem_effective hk).symm
    refine (List.map_inj_right fun _ _ => Option.some.inj).mp ?_
    calc
      order.map some = (order.map (·.field)).map (firstOn? · ks) := by rw [hlast, List.map_map]; rfl
      _ = ((effective ks).map (·.field)).map (firstOn? · ks) := by rw [h.fields]
      _ = (effective ks).map some := by rw [hfirst, List.map_map]; rfl

end PortableQuery
