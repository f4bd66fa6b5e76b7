import PortableQuery.Proofs.Base64
import PortableQuery.Proofs.Document.Temporal
import PortableQuery.Proofs.Number.DecimalText

set_option autoImplicit false

/-!
# Values are read back from documents

A key that is not reserved is no tag, so a map with one entry is not taken for a scalar, and no
scalar for a map. Two things are lost in texts: the sign of a decimal zero, which no comparison
sees, and a leap second inside a minute, which comes back as the second after it.
-/

namespace PortableQuery

namespace Value

/-- What the text of a scalar stands for: decimals made of their parts, so that no zero has a sign,
and moments without leap seconds inside a minute. -/
def scalarAsWritten : Value → Value
  | .decimal d => .decimal (.make d.negative d.coefficient d.scale)
  | .timestamp t => .timestamp t.asWritten
  | v => v

/-- The value with each scalar replaced by what its text stands for. -/
def asWritten (v : Value) : Value := v.mapScalars scalarAsWritten

/-- The value is no decimal zero with a sign. -/
def HasPlainZero : Value → Prop
  | .decimal d => d.coefficient.val = 0 → d.negative = false
  | _ => True

/-- The value is no leap second inside a minute. -/
def HasPlainSecond : Value → Prop
  | .timestamp t => t.EndsMinute
  | _ => True

/-- The value is no day or moment, or one of a year with four digits. -/
def HasPlainYear (v : Value) : Prop := ∀ year ∈ v.year?, IsPlainYear year

theorem scalarAsWritten_eq_self (v : Value) :
    scalarAsWritten v = v ↔ v.HasPlainZero ∧ v.HasPlainSecond := by
  cases v with
  | decimal d =>
    rw [scalarAsWritten, decimal.injEq, d.make_eq_self]
    exact (and_iff_left trivial).symm
  | timestamp t =>
    rw [scalarAsWritten, timestamp.injEq, Timestamp.asWritten_eq_self]
    exact (and_iff_right trivial).symm
  | _ => exact iff_of_true rfl ⟨trivial, trivial⟩

/-- **Nothing is lost exactly where no decimal zero has a sign and no leap second lies inside a
minute.** -/
theorem asWritten_eq_self {v : Value} :
    v.asWritten = v ↔ v.Everywhere HasPlainZero ∧ v.Everywhere HasPlainSecond := by
  rw [asWritten, mapScalars_eq_self]
  constructor
  · intro h
    have hplain : v.Everywhere fun w => w.HasPlainZero ∧ w.HasPlainSecond := by
      intro w hw
      cases hscalar : w.isScalar with
      | true => exact (scalarAsWritten_eq_self w).mp (h w hw hscalar)
      | false => cases w <;> first | exact ⟨trivial, trivial⟩ | cases hscalar
    exact ⟨fun w hw => (hplain w hw).1, fun w hw => (hplain w hw).2⟩
  · exact fun ⟨hzero, hsecond⟩ w hw _ => (scalarAsWritten_eq_self w).mpr ⟨hzero w hw, hsecond w hw⟩

end Value

namespace Document

variable {scope : Scope}

/-! ## Scalars -/

theorem decodeBinary_binary (bytes : List UInt8) (subtype : String) :
    decode scope (binary bytes subtype) =
      (if subtype = uuidSubtype then
        match Uuid.ofBytes? bytes with
        | some u => .ok (.uuid u)
        | none => .error (scope.error (.badUuid bytes.length))
      else if subtype = bytesSubtype then .ok (.bytes bytes)
      else .error (scope.error (.unknownSubtype subtype))) := by
  have hbody : decode scope (binary bytes subtype) = (do
      let bytes ← orFault scope .badBase64
        (Base64.decode Base64.standard (Base64.encode Base64.standard bytes))
      if subtype = uuidSubtype then
        match Uuid.ofBytes? bytes with
        | some u => pure (.uuid u)
        | none => throw (scope.error (.badUuid bytes.length))
      else if subtype = bytesSubtype then pure (.bytes bytes)
      else throw (scope.error (.unknownSubtype subtype))) := rfl
  rw [hbody, Base64.decode_encode Base64.lawful_standard]
  rfl

theorem decode_encode_scalar {v : Value} (hv : v.isScalar = true) (hyear : v.HasPlainYear)
    (scope scope' : Scope) :
    ∃ j, encode scope v = .ok j ∧ decode scope' j = .ok v.asWritten := by
  cases v with
  | list | map | udt => cases hv
  | null | bool | text => exact ⟨_, rfl, rfl⟩
  | int i =>
    refine ⟨_, rfl, ?_⟩
    rw [decode, Value.ofInteger_toInt]
    rfl
  | double d =>
    refine ⟨_, rfl, ?_⟩
    rcases d with _ | (_ | _) | d <;> rfl
  | decimal d =>
    have hread : decode scope' (.single "$numberDecimal" (.string d.text)) =
        (orFault scope' .badDecimal (DecimalText.read d.text)).map .decimal := rfl
    refine ⟨_, rfl, ?_⟩
    rw [hread, DecimalText.read_text]
    rfl
  | bytes bytes =>
    refine ⟨_, rfl, ?_⟩
    rw [decodeBinary_binary]
    rfl
  | uuid u =>
    refine ⟨_, rfl, ?_⟩
    rw [decodeBinary_binary, if_pos rfl, Uuid.ofBytes?_bytes]
    rfl
  | timestamp t =>
    refine ⟨dateForm (t.text "Z"), rfl, ?_⟩
    rw [decode_dateForm_moment, if_pos (hyear _ rfl)]
    rfl
  | date d =>
    refine ⟨dateForm d.text, rfl, ?_⟩
    rw [decode_dateForm_day, if_pos (hyear _ rfl)]
    rfl

/-! ## Lists and maps -/

theorem decodeTagged_of_not_isDollar {tag : String} (h : isDollar tag = false) (body : Json) :
    decodeTagged scope tag body = none := by
  unfold decodeTagged
  split
  · exact absurd h (by decide)
  · exact absurd h (by decide)
  · exact absurd h (by decide)
  · exact absurd h (by decide)
  · rfl

/-- **An object whose members have values is a map**, also one with a single member: a tag would be
reserved as a key. -/
theorem decode_object {ms : List (Named Json)} {es : List (Named Value)}
    (h : decodeMembers scope ms = .ok es) : decode scope (.object ms) = .ok (.map es) := by
  rcases ms with _ | ⟨⟨tag, body⟩, _ | ⟨m, ms⟩⟩
  · rw [decode, h]
    · rfl
    · simp
  -- the only member: if its name were a tag it would be reserved, and no member of a map
  · rw [decodeMembers] at h
    by_cases htag : isDollar tag = true
    · rw [if_pos htag] at h
      cases h
    rw [if_neg htag] at h
    obtain ⟨v, hv, h⟩ := bind_eq_ok.mp h
    obtain rfl : [⟨tag, v⟩] = es := Except.ok.inj h
    rw [decode, decodeTagged_of_not_isDollar (Bool.eq_false_iff.mpr htag)]
    simp only [if_neg htag, hv]
    rfl
  · rw [decode, h]
    · rfl
    · simp

theorem decodeItems_of_forall₂ {f : Value → Value} {vs : List Value} {js : List Json}
    (h : List.Forall₂ (fun v j => decode scope j = .ok (f v)) vs js) :
    decodeItems scope js = .ok (vs.map f) := by
  induction h with
  | nil => rfl
  | cons hv _ ih =>
    rw [decodeItems, hv, ih]
    rfl

theorem decodeMembers_of_forall₂ {f : Value → Value} {es : List (Named Value)}
    {ms : List (Named Json)} (h : List.Forall₂ (fun e m => m.name = e.name ∧
      isDollar e.name = false ∧ decode (scope.nested e.name) m.value = .ok (f e.value)) es ms) :
    decodeMembers scope ms = .ok (es.map fun e => ⟨e.name, f e.value⟩) := by
  induction h with
  | nil => rfl
  | @cons e m _ _ he _ ih =>
    obtain ⟨hname, hdollar, hvalue⟩ := he
    rw [decodeMembers, hname, hdollar, if_neg Bool.false_ne_true, hvalue, ih]
    rfl

/-- **What is written is read back**, days and moments in years with four digits only. -/
theorem decode_of_encode {scope : Scope} {v : Value} {j : Json} (h : encode scope v = .ok j)
    (hyear : v.Everywhere Value.HasPlainYear) (scope' : Scope) :
    decode scope' j = .ok v.asWritten := by
  -- on the value: its items and entries are read back, each in the field of its key
  induction v using Value.induct generalizing scope scope' j with
  | scalar v hv =>
    obtain ⟨j', hj', hread⟩ := decode_encode_scalar hv hyear.self scope scope'
    obtain rfl : j' = j := Except.ok.inj (hj'.symm.trans h)
    exact hread
  | list items ih =>
    obtain ⟨js, hjs, h⟩ := bind_eq_ok.mp h
    obtain rfl := pure_eq_ok.mp h
    have hitems := (Value.everywhere_list.mp hyear).2
    have hread : List.Forall₂ (fun v j => decode scope' j = .ok v.asWritten) items js :=
      ((List.forall₂_and_left _ _).mpr ⟨fun _ hv => hv, encodeItems_eq_ok.mp hjs⟩).imp
        fun v j hj => ih v hj.1 hj.2 (hitems v hj.1) scope'
    rw [decode, decodeItems_of_forall₂ hread, Value.asWritten, Value.mapScalars_list]
    rfl
  | map entries ih =>
    obtain ⟨ms, hms, h⟩ := bind_eq_ok.mp h
    obtain rfl := pure_eq_ok.mp h
    have hentries := (Value.everywhere_map.mp hyear).2
    obtain ⟨hdollar, -, -, hforms⟩ := encodeEntries_eq_ok.mp hms
    have hread : List.Forall₂ (fun e m => m.name = e.name ∧ isDollar e.name = false ∧
        decode (scope'.nested e.name) m.value = .ok e.value.asWritten) entries ms :=
      ((List.forall₂_and_left _ _).mpr ⟨fun _ he => he, hforms⟩).imp fun e m hm =>
        ⟨hm.2.1, hdollar e hm.1, ih e hm.1 hm.2.2 (hentries e hm.1) _⟩
    rw [decode_object (decodeMembers_of_forall₂ hread), Value.asWritten, Value.mapScalars_map]
    rfl
  | udt type fields => cases h

/-- **Exactly the storable values have a document form, every failure is a conversion error, and the
form is read as what its texts stand for**, if days and moments lie in years with four digits. That
is the value itself, with its keys and their order, the places of decimals, nanoseconds, the zeros of
doubles and the difference of an integer and a double, exactly if no decimal zero in it has a sign
and no leap second lies inside a minute. -/
theorem round_trip (scope : Scope) (v : Value) :
    ((∃ j, encode scope v = .ok j) ↔ v.Everywhere Storable) ∧
    (∀ e, encode scope v = .error e → ∃ field fault, e = .conversion scope.entity field fault) ∧
    ∀ j, encode scope v = .ok j → v.Everywhere Value.HasPlainYear → ∀ scope',
      decode scope' j = .ok v.asWritten ∧
        (decode scope' j = .ok v ↔
          v.Everywhere Value.HasPlainZero ∧ v.Everywhere Value.HasPlainSecond) := by
  refine ⟨exists_encode_iff scope v, fun e => encode_eq_error, fun j h hyear scope' => ?_⟩
  have hread := decode_of_encode h hyear scope'
  refine ⟨hread, ?_⟩
  rw [hread, Except.ok.injEq, Value.asWritten_eq_self]

/-- Maps with one entry, sixteen bytes, an identifier, a negative zero, a leap second and more. -/
def confusable : Value :=
  .map [⟨"", .map [⟨"one", .int 1⟩]⟩,
    ⟨"base64", .list [.bytes (List.replicate 16 255), .uuid ⟨List.replicate 16 255, rfl⟩]⟩,
    ⟨"numbers", .list [.double (.finite (.zero true)), .double .nan, .double (.infinite true),
      .double (.finite ⟨false, ⟨1023 * 2 ^ 52, by decide⟩⟩), .decimal ⟨true, 150, 2⟩]⟩,
    ⟨"date", .list [.timestamp leapMoment, .date leapMoment.date, .text "2016-12-31", .null]⟩]

/-- They are written and read back as they are. -/
theorem round_trip_confusable : ∃ j, encode ⟨"Event", "at"⟩ confusable = .ok j ∧
    decode ⟨"Event", "at"⟩ j = .ok confusable := by
  have hyear : confusable.Everywhere Value.HasPlainYear := by
    simp (disch := decide) [confusable, Value.everywhere_map, Value.everywhere_list,
      Value.everywhere_of_isScalar, Value.HasPlainYear, Value.year?, IsPlainYear, leapMoment]
  have hzero : confusable.Everywhere Value.HasPlainZero := by
    simp (disch := decide) [confusable, Value.everywhere_map, Value.everywhere_list,
      Value.everywhere_of_isScalar, Value.HasPlainZero]
  have hsecond : confusable.Everywhere Value.HasPlainSecond := by
    simp (disch := decide) [confusable, Value.everywhere_map, Value.everywhere_list,
      Value.everywhere_of_isScalar, Value.HasPlainSecond, endsMinute_leapMoment]
  have hstorable : confusable.Everywhere Storable := by
    simp (disch := decide) [confusable, Value.everywhere_map, Value.everywhere_list,
      Value.everywhere_of_isScalar, Storable, Named.names, isDollar]
  obtain ⟨j, hj⟩ := (round_trip ⟨"Event", "at"⟩ confusable).1.mpr hstorable
  have hback := (round_trip ⟨"Event", "at"⟩ confusable).2.2 j hj hyear ⟨"Event", "at"⟩
  exact ⟨j, hj, hback.2.mpr ⟨hzero, hsecond⟩⟩

/-- A leap second inside a minute: half past twelve, and one and a half seconds. -/
def lostSecond : Timestamp where
  date := leapMoment.date
  second := ⟨45000, by decide⟩
  nano := ⟨1500000000, by decide⟩

/-- It is written as the second that comes next, and what is read back is another moment. -/
theorem decode_encode_lostSecond :
    encode ⟨"Event", "at"⟩ (.timestamp lostSecond) =
      .ok (dateForm "2016-12-31T12:30:01.500Z") ∧
    decode ⟨"Event", "at"⟩ (dateForm "2016-12-31T12:30:01.500Z") =
      .ok (.timestamp { lostSecond with second := 45001, nano := 500000000 }) ∧
    decode ⟨"Event", "at"⟩ (dateForm "2016-12-31T12:30:01.500Z") ≠
      .ok (.timestamp lostSecond) := by
  have htext : lostSecond.text "Z" = "2016-12-31T12:30:01.500Z" := by decide +kernel
  have hread : decode ⟨"Event", "at"⟩ (dateForm "2016-12-31T12:30:01.500Z") =
      .ok (.timestamp lostSecond.asWritten) := by
    rw [← htext, decode_dateForm_moment, if_pos (by decide)]
  have hnext : lostSecond.asWritten = { lostSecond with second := 45001, nano := 500000000 } := rfl
  refine ⟨?_, hread.trans (by rw [hnext]), ?_⟩
  · rw [← htext]
    rfl
  · rw [hread, hnext]
    simp [lostSecond]

end Document

end PortableQuery
