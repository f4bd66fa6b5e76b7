import PortableQuery.Proofs.Json.Bounded
import PortableQuery.Proofs.Json.Number
import PortableQuery.Proofs.Json.Quoted
import PortableQuery.Proofs.Json.RoundTrip

set_option autoImplicit false

/-!
# Printed values are read back

A value within the bounds of documents is read back from its text, every double as its own text is
read. In the exact reading that is the value itself.
-/

namespace PortableQuery

namespace Json

mutual

/-- The value with every double replaced by what `f` makes of it. -/
def mapDoubles (f : FiniteDouble → FiniteDouble) : Json → Json
  | .double d => .double (f d)
  | .array items => .array (itemsMapDoubles f items)
  | .object members => .object (membersMapDoubles f members)
  | j => j
termination_by structural j => j

/-- The items, the doubles in them replaced. -/
def itemsMapDoubles (f : FiniteDouble → FiniteDouble) : List Json → List Json
  | [] => []
  | j :: js => mapDoubles f j :: itemsMapDoubles f js
termination_by structural js => js

/-- The members, the doubles in them replaced. -/
def membersMapDoubles (f : FiniteDouble → FiniteDouble) : List (Named Json) → List (Named Json)
  | [] => []
  | ⟨name, j⟩ :: ms => ⟨name, mapDoubles f j⟩ :: membersMapDoubles f ms
termination_by structural ms => ms

end

variable (f : FiniteDouble → FiniteDouble)

@[simp] theorem mapDoubles_array (items : List Json) :
    mapDoubles f (.array items) = .array (items.map (mapDoubles f)) := by
  have hitems : itemsMapDoubles f items = items.map (mapDoubles f) := by
    induction items with
    | nil => rfl
    | cons j js ih => rw [itemsMapDoubles, ih, List.map_cons]
  rw [mapDoubles, hitems]

@[simp] theorem mapDoubles_object (members : List (Named Json)) :
    mapDoubles f (.object members) =
      .object (members.map fun m => ⟨m.name, mapDoubles f m.value⟩) := by
  have hmembers : membersMapDoubles f members =
      members.map fun m => ⟨m.name, mapDoubles f m.value⟩ := by
    induction members with
    | nil => rfl
    | cons m ms ih => rw [membersMapDoubles, ih, List.map_cons]
  rw [mapDoubles, hmembers]

/-- The value that the text of a value is read as. -/
def reread (m : NumberReading) (j : Json) : Json := j.mapDoubles (FiniteDouble.reread m)

section Reread

variable {m : NumberReading}

@[simp] theorem reread_string (s : String) : (Json.string s).reread m = .string s := rfl

@[simp] theorem reread_bool (b : Bool) : (Json.bool b).reread m = .bool b := rfl

@[simp] theorem reread_int (i : Int) : (Json.int i).reread m = .int i := rfl

@[simp] theorem reread_array (items : List Json) :
    (Json.array items).reread m = .array (items.map (reread m)) := mapDoubles_array _ items

@[simp] theorem reread_object (members : List (Named Json)) :
    (Json.object members).reread m = .object (members.map fun e => ⟨e.name, e.value.reread m⟩) :=
  mapDoubles_object _ members

end Reread

end Json

namespace JsonReader

open Json

variable {m : NumberReading} {fuel depth : Nat} {rest : List Char}

/-! ## Where values start -/

/-- A value may start with the character: no white space, no bracket that ends one. -/
def IsStart (c : Char) : Prop := c ∉ [' ', '\n', '\t', '\r', ']', '\x7d']

instance (c : Char) : Decidable (IsStart c) := inferInstanceAs (Decidable (_ ∉ _))

theorem isStart_of_isDigit {c : Char} (hc : c.isDigit = true) : IsStart c := by
  intro hmem
  simp only [List.mem_cons, List.not_mem_nil, or_false] at hmem
  rcases hmem with rfl | rfl | rfl | rfl | rfl | rfl <;> cases hc

theorem skip_of_isStart {c : Char} (hc : IsStart c) (cs : List Char) : skip (c :: cs) = c :: cs := by
  simp only [IsStart, List.mem_cons, not_or] at hc
  simp [skip, hc.1, hc.2.1, hc.2.2.1, hc.2.2.2.1]

theorem exists_signed {cs : List Char} (hcs : ∃ c ds, cs = c :: ds ∧ c.isDigit = true) (p : Prop)
    [Decidable p] : ∃ c ds, (if p then ['-'] else []) ++ cs = c :: ds ∧
      (c = '-' ∨ c.isDigit = true) := by
  obtain ⟨c, ds, rfl, hc⟩ := hcs
  split_ifs
  · exact ⟨'-', c :: ds, rfl, .inl rfl⟩
  · exact ⟨c, ds, rfl, .inr hc⟩

theorem exists_int (i : Int) : ∃ c ds, (toString i).toList = c :: ds ∧
    (c = '-' ∨ c.isDigit = true) :=
  toList_toString_int i ▸ exists_signed (exists_toString _) _

theorem exists_double (x : FiniteDouble) : ∃ c ds, (x.text jsonLayout).toList = c :: ds ∧
    (c = '-' ∨ c.isDigit = true) :=
  x.text_eq ▸ exists_signed (Numeral.isDecimal_ofDecimal x.shortest_zero).exists_chars _

theorem exists_chars (j : Json) : ∃ c cs, j.chars = c :: cs ∧ IsStart c := by
  have hnumber {c : Char} (hc : c = '-' ∨ c.isDigit = true) : IsStart c := by
    rcases hc with rfl | hc
    · decide
    · exact isStart_of_isDigit hc
  cases j with
  | bool b => cases b <;> exact ⟨_, _, rfl, by decide⟩
  | int i =>
    obtain ⟨c, cs, hchars, hc⟩ := exists_int i
    exact ⟨c, cs, hchars, hnumber hc⟩
  | double x =>
    obtain ⟨c, cs, hchars, hc⟩ := exists_double x
    exact ⟨c, cs, hchars, hnumber hc⟩
  | _ => exact ⟨_, _, rfl, by decide⟩

@[simp] theorem skip_chars (j : Json) (rest : List Char) :
    skip (j.chars ++ rest) = j.chars ++ rest := by
  obtain ⟨c, cs, hchars, hc⟩ := exists_chars j
  rw [hchars, List.cons_append, skip_of_isStart hc]

theorem value?_number {c : Char} (hc : c = '-' ∨ c.isDigit = true) (cs : List Char) :
    value? m (fuel + 1) depth (c :: cs) = number? m (c :: cs) := by
  have hother {x : Char} (hx : ¬(x = '-' ∨ x.isDigit = true)) : c ≠ x := by
    rintro rfl
    exact hx hc
  rw [value?, if_neg (hother (by decide)), if_neg (hother (by decide)), if_neg (hother (by decide)),
    if_neg (hother (by decide)), if_neg (hother (by decide)), if_neg (hother (by decide))]

/-! ## Values -/

/-- The text of the value is read with enough fuel, whatever follows it. -/
def Reads (m : NumberReading) (j : Json) : Prop :=
  ∀ (fuel depth : Nat) (rest : List Char), 2 * j.chars.length ≤ fuel → j.raw.Within depth →
    EndsNumber rest → value? m fuel depth (j.chars ++ rest) = some ((j.reread m).raw, rest)

theorem quotedChars_append (s : String) (rest : List Char) : JsonText.quotedChars s ++ rest =
    '"' :: (s.toList.flatMap JsonText.escaped ++ '"' :: rest) := by
  simp [JsonText.quotedChars]

theorem reads_scalar {j : Json} (harray : ∀ items, j ≠ .array items)
    (hobject : ∀ members, j ≠ .object members) : Reads m j := by
  intro fuel depth rest hfuel hwithin hrest
  obtain ⟨fuel, rfl⟩ : ∃ n, fuel = n + 1 := by
    obtain ⟨c, cs, hchars, -⟩ := exists_chars j
    rw [hchars, List.length_cons] at hfuel
    exact ⟨fuel - 1, by omega⟩
  cases j with
  | array items => exact absurd rfl (harray items)
  | object members => exact absurd rfl (hobject members)
  | null => rfl
  | bool b => cases b <;> rfl
  | int i =>
    obtain ⟨c, cs, hchars, hc⟩ := exists_int i
    cases hwithin.bounded with
    | int hlow hhigh =>
      have hread := number?_int hlow hhigh hrest m
      rw [hchars] at hread
      show value? m (fuel + 1) depth ((toString i).toList ++ rest) = _
      rw [hchars, List.cons_append, value?_number hc]
      exact hread
  | double x =>
    obtain ⟨c, cs, hchars, hc⟩ := exists_double x
    have hread := x.number?_text hrest m
    rw [hchars] at hread
    show value? m (fuel + 1) depth ((x.text jsonLayout).toList ++ rest) = _
    rw [hchars, List.cons_append, value?_number hc]
    exact hread
  | string s =>
    show value? m (fuel + 1) depth (JsonText.quotedChars s ++ rest) = _
    rw [quotedChars_append, value?, if_pos rfl, JsonText.string?_quoted]
    rfl

theorem endsNumber_cons {c : Char} (hc : c ∈ [',', ']', '\x7d']) (cs : List Char) :
    EndsNumber (c :: cs) := by
  rintro _ ⟨⟩
  simp only [List.mem_cons, List.not_mem_nil, or_false] at hc
  rcases hc with rfl | rfl | rfl <;> decide

theorem exists_itemChars {js : List Json} (hne : js ≠ []) :
    ∃ c cs, itemChars js = c :: cs ∧ IsStart c := by
  obtain ⟨j, js, rfl⟩ := List.exists_cons_of_ne_nil hne
  obtain ⟨c, cs, hchars, hc⟩ := exists_chars j
  cases js with
  | nil => exact ⟨c, cs, hchars, hc⟩
  | cons k js =>
    have hcons : itemChars (j :: k :: js) = j.chars ++ ',' :: itemChars (k :: js) := rfl
    exact ⟨c, cs ++ ',' :: itemChars (k :: js), by rw [hcons, hchars, List.cons_append], hc⟩

theorem skip_itemChars {js : List Json} (hne : js ≠ []) (rest : List Char) :
    skip (itemChars js ++ rest) = itemChars js ++ rest := by
  obtain ⟨c, cs, hstart, hc⟩ := exists_itemChars hne
  rw [hstart, List.cons_append, skip_of_isStart hc]

theorem skip_comma (cs : List Char) : skip (',' :: cs) = ',' :: cs := rfl

theorem skip_colon (cs : List Char) : skip (':' :: cs) = ':' :: cs := rfl

/-- **The items of an array are read**, up to its bracket. -/
theorem items?_chars {js : List Json} (hne : js ≠ []) (h : ∀ j ∈ js, Reads m j)
    (hfuel : 2 * (itemChars js).length + 1 ≤ fuel) (hwithin : ∀ j ∈ js, j.raw.Within depth) :
    items? m fuel depth (itemChars js ++ ']' :: rest) =
      some (js.map fun j => (j.reread m).raw, rest) := by
  obtain ⟨fuel, rfl⟩ : ∃ n, fuel = n + 1 := ⟨fuel - 1, by omega⟩
  induction js generalizing fuel with
  | nil => exact absurd rfl hne
  | cons j js ih =>
    rw [List.forall_mem_cons] at h hwithin
    cases js with
    | nil =>
      rw [itemChars] at hfuel ⊢
      have hread := h.1 fuel depth _ (by omega) hwithin.1
        (endsNumber_cons (c := ']') (by decide) rest)
      rw [items?, hread]
      rfl
    | cons k js =>
      have hchars : itemChars (j :: k :: js) = j.chars ++ ',' :: itemChars (k :: js) := rfl
      rw [hchars, List.length_append, List.length_cons] at hfuel
      obtain ⟨fuel, rfl⟩ : ∃ n, fuel = n + 1 := ⟨fuel - 1, by omega⟩
      have hread := h.1 (fuel + 1) depth _ (by omega) hwithin.1
        (endsNumber_cons (c := ',') (by decide) (itemChars (k :: js) ++ ']' :: rest))
      have hrest := ih (List.cons_ne_nil k js) h.2 hwithin.2 fuel (by omega)
      have hskip := skip_itemChars (List.cons_ne_nil k js) (']' :: rest)
      rw [hchars, List.append_assoc, List.cons_append, items?, hread]
      simp only [Option.bind_eq_bind, Option.bind_some, skip_comma, hskip, hrest]
      rfl

theorem memberChars_cons_cons (e e' : Named Json) (ms : List (Named Json)) :
    memberChars (e :: e' :: ms) =
      JsonText.quotedChars e.name ++ ':' :: (e.value.chars ++ ',' :: memberChars (e' :: ms)) :=
  rfl

theorem exists_memberChars {ms : List (Named Json)} (hne : ms ≠ []) :
    ∃ cs, memberChars ms = '"' :: cs := by
  obtain ⟨e, ms, rfl⟩ := List.exists_cons_of_ne_nil hne
  cases ms with
  | nil => exact ⟨_, rfl⟩
  | cons e' ms => exact ⟨_, rfl⟩

theorem skip_memberChars {ms : List (Named Json)} (hne : ms ≠ []) (rest : List Char) :
    skip (memberChars ms ++ rest) = memberChars ms ++ rest := by
  obtain ⟨cs, hstart⟩ := exists_memberChars hne
  rw [hstart, List.cons_append, skip_of_isStart (by decide)]

/-- **The members of an object are read**, up to its brace. -/
theorem members?_chars {ms : List (Named Json)} (hne : ms ≠ []) (h : ∀ e ∈ ms, Reads m e.value)
    (hfuel : 2 * (memberChars ms).length + 1 ≤ fuel)
    (hwithin : ∀ e ∈ ms, e.value.raw.Within depth) :
    members? m fuel depth (memberChars ms ++ '\x7d' :: rest) =
      some (ms.map fun e => (some e.name, (e.value.reread m).raw), rest) := by
  obtain ⟨fuel, rfl⟩ : ∃ n, fuel = n + 1 := ⟨fuel - 1, by omega⟩
  induction ms generalizing fuel with
  | nil => exact absurd rfl hne
  | cons e ms ih =>
    rw [List.forall_mem_cons] at h hwithin
    cases ms with
    | nil =>
      have hchars : memberChars [e] = JsonText.quotedChars e.name ++ ':' :: e.value.chars := rfl
      rw [hchars, List.length_append, List.length_cons] at hfuel
      have hread := h.1 fuel depth _ (by omega) hwithin.1
        (endsNumber_cons (c := '\x7d') (by decide) rest)
      have hbrace : skip ('\x7d' :: rest) = '\x7d' :: rest := rfl
      rw [hchars, List.append_assoc, quotedChars_append, List.cons_append, members?]
      simp only [JsonText.string?_quoted, Option.bind_eq_bind, Option.bind_some, skip_colon, skip_chars,
        hread, hbrace]
      rfl
    | cons e' ms =>
      rw [memberChars_cons_cons, List.length_append, List.length_cons, List.length_append,
        List.length_cons] at hfuel
      obtain ⟨fuel, rfl⟩ : ∃ n, fuel = n + 1 := ⟨fuel - 1, by omega⟩
      have hread := h.1 (fuel + 1) depth _ (by omega) hwithin.1
        (endsNumber_cons (c := ',') (by decide) (memberChars (e' :: ms) ++ '\x7d' :: rest))
      have hrest := ih (List.cons_ne_nil e' ms) h.2 hwithin.2 fuel (by omega)
      have hskip := skip_memberChars (List.cons_ne_nil e' ms) ('\x7d' :: rest)
      rw [memberChars_cons_cons, List.append_assoc, quotedChars_append, List.cons_append,
        List.append_assoc, List.cons_append, members?]
      simp only [JsonText.string?_quoted, Option.bind_eq_bind, Option.bind_some, skip_colon, skip_chars,
        hread, skip_comma, hskip, hrest]
      rfl

theorem reads_array {items : List Json} (h : ∀ j ∈ items, Reads m j) : Reads m (.array items) := by
  intro fuel depth rest hfuel hwithin _
  rw [Json.raw, rawItems_eq_map] at hwithin
  obtain ⟨depth, rfl, hitems⟩ := hwithin.array
  rw [List.forall_mem_map] at hitems
  have hchars : (Json.array items).chars ++ rest = '[' :: (itemChars items ++ ']' :: rest) := by
    simp [chars]
  have hlength : (Json.array items).chars.length = (itemChars items).length + 2 := by
    simp [chars]
  obtain ⟨fuel, rfl⟩ : ∃ n, fuel = n + 1 := ⟨fuel - 1, by omega⟩
  rw [hchars, value?, if_neg (by decide), if_pos rfl, reread_array, Json.raw, rawItems_eq_map,
    List.map_map]
  by_cases hne : items = []
  · subst hne
    rfl
  · obtain ⟨c, cs, hstart, hc⟩ := exists_itemChars hne
    have henough : 2 * (itemChars items).length + 1 ≤ fuel := by omega
    rw [skip_itemChars hne]
    split
    · next r heq =>
      rw [hstart] at heq
      obtain rfl := (List.cons.inj heq).1
      exact absurd hc (by decide)
    · rw [Nat.add_sub_cancel, items?_chars hne h henough hitems]
      rfl

theorem ofMembers_map (f : Named Json → RawJson) (ms : List (Named Json)) :
    ofMembers (ms.map fun e => (some e.name, f e)) =
      .object (ms.map fun e => ⟨e.name, f e⟩) := by
  have hnames {g : Option String × RawJson → Option (Named RawJson)}
      (hg : ∀ name j, g (some name, j) = some ⟨name, j⟩) :
      (ms.map fun e => (some e.name, f e)).mapM g = some (ms.map fun e => ⟨e.name, f e⟩) := by
    rw [List.mapM_map]
    simp only [Function.comp_def, hg]
    exact List.mapM_pure
  rw [ofMembers, hnames fun _ _ => rfl]

theorem reads_object {members : List (Named Json)} (h : ∀ e ∈ members, Reads m e.value) :
    Reads m (.object members) := by
  intro fuel depth rest hfuel hwithin _
  rw [Json.raw, rawMembers_eq_map] at hwithin
  obtain ⟨depth, rfl, hmembers⟩ := hwithin.object
  rw [List.forall_mem_map] at hmembers
  have hchars : (Json.object members).chars ++ rest =
      '\x7b' :: (memberChars members ++ '\x7d' :: rest) := by
    simp [chars]
  have hlength : (Json.object members).chars.length = (memberChars members).length + 2 := by
    simp [chars]
  obtain ⟨fuel, rfl⟩ : ∃ n, fuel = n + 1 := ⟨fuel - 1, by omega⟩
  rw [hchars, value?, if_neg (by decide), if_neg (by decide), if_pos rfl, reread_object,
    Json.raw, rawMembers_eq_map, List.map_map]
  by_cases hne : members = []
  · subst hne
    rfl
  · obtain ⟨cs, hstart⟩ := exists_memberChars hne
    have henough : 2 * (memberChars members).length + 1 ≤ fuel := by omega
    rw [skip_memberChars hne]
    split
    · next r heq =>
      rw [hstart] at heq
      exact absurd (List.cons.inj heq).1 (by decide)
    · rw [Nat.add_sub_cancel, members?_chars hne h henough hmembers, Option.map_some]
      dsimp only
      rw [ofMembers_map]
      rfl

/-- **The text of a value is read**, whatever follows it. -/
theorem reads (m : NumberReading) (j : Json) : Reads m j := by
  induction j using Json.induct with
  | scalar j harray hobject => exact reads_scalar harray hobject
  | array items ih => exact reads_array ih
  | object members ih => exact reads_object ih

end JsonReader

/-- **A value within the bounds of documents is read back from its text**, every double as its own
text is read. -/
theorem Json.readBy?_text {j : Json} (h : j.raw.Within JsonReader.depthLimit) (m : NumberReading) :
    RawJson.readBy? m j.text = some (j.reread m).raw := by
  have hread := JsonReader.reads m j (2 * j.chars.length + 2) _ [] (by omega) h
    JsonReader.endsNumber_nil
  have hskip := JsonReader.skip_chars j []
  rw [List.append_nil] at hread hskip
  rw [RawJson.readBy?]
  simp only [Json.text, String.toList_ofList, hskip, hread, Option.bind_eq_bind, Option.bind_some]
  rfl

end PortableQuery
