import PortableQuery.Proofs.Form.Text

set_option autoImplicit false

/-!
# The JSON form is stable

What was read from a document is written in one way and read back from that. Two things may be lost:
the sign of a decimal zero, which rounding leaves on a text such as `-0.4e-28`, and the last places
of a double whose text is not read exactly.
-/

namespace PortableQuery

/-- A JSON document: a text as it stands, or the value of a text. -/
inductive RawJson.IsDocument (m : NumberReading) : RawJson → Prop
  | text {s : String} {j : RawJson} (h : RawJson.readBy? m s = some j) : IsDocument m j
  | value {s : String} {j : Json} (h : Json.parseBy? m s = some j) : IsDocument m j.raw

/-- It is no deeper than a text may be. -/
def RawJson.FitsText (j : RawJson) : Prop := j.depth ≤ JsonReader.depthLimit

theorem RawJson.fitsText_of_readBy? {m : NumberReading} {s : String} {j : RawJson}
    (h : RawJson.readBy? m s = some j) : j.FitsText :=
  (RawJson.within_of_readBy? m s j h).depth_le

theorem RawJson.IsDocument.within {m : NumberReading} {j : RawJson} (h : j.IsDocument m) :
    j.Within j.depth := by
  cases h with
  | text h => exact ⟨(RawJson.within_of_readBy? m _ _ h).bounded, le_rfl⟩
  | value h => exact ⟨Json.bounded_of_parseBy? m _ _ h, le_rfl⟩

/-- What is written of `x` is read back, and once more. Where it can be a text it is read back from
that, too, its doubles as their texts are read; read exactly they stay what they are. -/
structure Settles {α : Type} (write : α → Json) (read? : RawJson → Option α)
    (reread : NumberReading → α → α) (asWritten : α → α) (fits : Prop) (x : α) : Prop where
  comesBack : read? (write x).raw = some (asWritten x)
  stays : read? (write (asWritten x)).raw = some (asWritten x)
  fromText : fits → ∀ m,
    (RawJson.readBy? m (write x).text).bind read? = some (asWritten (reread m x))
  exactly : reread .nearest x = x

section Readings

variable {d : Nat} {fits : Prop} (hfits : fits → d ≤ JsonReader.depthLimit)

include hfits

theorem Value.IsReading.settles {v : Value} (hv : v.IsReading d) :
    Settles toJson ofRaw? reread asWritten fits v where
  comesBack := ofJson?_toJson_eq_some.mpr ⟨hv.finite, rfl⟩
  stays := ofJson?_asWritten hv.finite
  fromText hd m := by
    rw [readBy?_text (hv.depth_le.trans (hfits hd))]
    exact ofJson?_toJson_eq_some.mpr ⟨finiteDoubles_reread hv.finite, rfl⟩
  exactly := v.reread_nearest

theorem Condition.IsReading.settles {c : Condition} (hc : c.IsReading d) (p : Placement) :
    Settles toJson (ofRaw? p) reread asWritten fits c where
  comesBack := ofJson?_toJson_eq_some.mpr ⟨hc.finite, rfl⟩
  stays := ofJson?_asWritten hc.finite
  fromText hd m := by
    rw [readBy?_text (hc.depth_le.trans (hfits hd))]
    refine ofJson?_toJson_eq_some.mpr ⟨?_, rfl⟩
    rw [reread, values_mapValues, List.forall_mem_map]
    exact fun v hv => Value.finiteDoubles_reread (hc.finite v hv)
  exactly := c.reread_nearest

theorem Query.IsReading.settles {q : Query} (hq : q.IsReading d) (p : Placement) :
    Settles toJson (ofRaw? p) reread asWritten fits q where
  comesBack := ofJson?_toJson_eq_some.mpr ⟨hq.finite, rfl⟩
  stays := ofJson?_asWritten hq.finite
  fromText hd m := by
    have hdepth : max d 3 ≤ JsonReader.depthLimit := Nat.max_le.mpr ⟨hfits hd, by decide⟩
    rw [readBy?_text (hq.depth_le.trans hdepth)]
    refine ofJson?_toJson_eq_some.mpr ⟨?_, rfl⟩
    rw [reread, values_mapValues, List.forall_mem_map]
    exact fun v hv => Value.finiteDoubles_reread (hq.finite v hv)
  exactly := q.reread_nearest

theorem settles_self {α : Type} {write : α → Json} {read? : RawJson → Option α} {x : α}
    (hread : read? (write x).raw = some x) (hdepth : (write x).raw.depth ≤ d)
    (htext : ∀ m, (write x).raw.depth ≤ JsonReader.depthLimit →
      RawJson.readBy? m (write x).text = some (write x).raw) :
    Settles write read? (fun _ => id) id fits x where
  comesBack := hread
  stays := hread
  fromText hd m := by
    rw [htext m (hdepth.trans (hfits hd))]
    exact hread
  exactly := rfl

end Readings

/-- **The JSON form is stable**: what was read from a document is read back from what is written of
it, with nothing lost but the signs of decimal zeros, and from then on nothing changes. Where there
are no such signs, and always for declared types and settings, it is read back as it was. From a text
the same is read, but for doubles where decimals are not read exactly. -/
theorem forms_settle {m : NumberReading} {j : RawJson} (h : j.IsDocument m) (p p' : Placement) :
    ((∃ s, RawJson.readBy? m s = some j) → j.FitsText) ∧
    (∀ v, Value.ofRaw? j = some v →
      Settles Value.toJson Value.ofRaw? Value.reread Value.asWritten j.FitsText v ∧
        (v.Everywhere Value.HasPlainZero → v.asWritten = v)) ∧
    (∀ c, Condition.ofRaw? p j = some c →
      Settles Condition.toJson (Condition.ofRaw? p') Condition.reread Condition.asWritten
          j.FitsText c ∧
        ((∀ v ∈ c.values, v.Everywhere Value.HasPlainZero) → c.asWritten = c)) ∧
    (∀ q, Query.ofRaw? p j = some q →
      Settles Query.toJson (Query.ofRaw? p') Query.reread Query.asWritten j.FitsText q ∧
        ((∀ v ∈ q.values, v.Everywhere Value.HasPlainZero) → q.asWritten = q)) ∧
    (∀ t, UserType.ofRaw? j = some t →
      Settles UserType.toJson UserType.ofRaw? (fun _ => id) id j.FitsText t) ∧
    (∀ t, FieldType.ofRaw? j = some t →
      Settles FieldType.toJson FieldType.ofRaw? (fun _ => id) id j.FitsText t) ∧
    ∀ c, CompilerConfig.ofRaw? j = some c →
      Settles CompilerConfig.toJson CompilerConfig.ofRaw? (fun _ => id) id j.FitsText c := by
  have hwithin := h.within
  refine ⟨fun ⟨_, hs⟩ => RawJson.fitsText_of_readBy? hs, fun v hv => ?_, fun c hc => ?_,
    fun q hq => ?_, fun t ht => ?_, fun t ht => ?_, fun c _ => ?_⟩
  · have hread := (Value.reads j).value hwithin v hv
    exact ⟨hread.settles id,
      fun hzero => Value.asWritten_eq_self.mpr ⟨hzero, hread.plainSeconds⟩⟩
  · have hread := (Condition.reads p j).condition hwithin c hc
    exact ⟨hread.settles id p', fun hzero => Condition.mapValues_eq_self.mpr fun v hv =>
      Value.asWritten_eq_self.mpr ⟨hzero v hv, hread.plainSeconds v hv⟩⟩
  · have hread := Query.yieldsOnly_ofRaw? p hwithin q hq
    exact ⟨hread.settles id p', fun hzero => Query.asWritten_eq_self.mpr fun v hv =>
      ⟨hzero v hv, hread.plainSeconds v hv⟩⟩
  · exact settles_self id (UserType.ofJson?_toJson t) (UserType.yieldsOnly_ofRaw? hwithin t ht)
      fun m => UserType.readBy?_text
  · exact settles_self id (FieldType.ofJson?_toJson t) (FieldType.yieldsOnly_ofRaw? hwithin t ht)
      fun m => FieldType.readBy?_text
  · exact settles_self (d := 1) (fun _ => by decide) (CompilerConfig.ofJson?_toJson c) le_rfl
      fun m _ => CompilerConfig.readBy?_text c

/-- A query written as an array, and so are the parts of its condition; the day has no padding. -/
def looseQuery : String :=
  "[\"E\",\x7b\"predicate\":[\"EQUALS\",[\"x\",\x7b\"date\":\"+1-2-3\"\x7d]]\x7d,[],[],0,0,null]"

/-- It is read, and what is written of it is read as the same query, also from its text. -/
theorem forms_settle_looseQuery :
    ∃ j q, RawJson.read? looseQuery = some j ∧ Query.ofRaw? .document j = some q ∧
      q.values.map (·.toJson.text) = ["\x7b\"date\":\"0001-02-03\"\x7d"] ∧
      Query.ofRaw? .part q.toJson.raw = some q.asWritten ∧
      Query.ofRaw? .part q.asWritten.toJson.raw = some q.asWritten ∧
      (RawJson.read? q.toJson.text).bind (Query.ofRaw? .part) = some q.asWritten := by
  obtain ⟨q, hq, htext⟩ : ∃ q, (RawJson.read? looseQuery).bind (Query.ofRaw? .document) = some q ∧
      q.values.map (·.toJson.text) = ["\x7b\"date\":\"0001-02-03\"\x7d"] :=
    Option.map_eq_some_iff.mp (by decide +kernel)
  obtain ⟨j, hj, hq⟩ := Option.bind_eq_some_iff.mp hq
  obtain ⟨hfits, -, -, hqueries, -⟩ := forms_settle (.text hj) .document .part
  obtain ⟨hsettles, -⟩ := hqueries q hq
  have htexts := hsettles.fromText (hfits ⟨_, hj⟩) .nearest
  rw [hsettles.exactly] at htexts
  exact ⟨j, q, hj, hq, htext, hsettles.comesBack, hsettles.stays, htexts⟩

/-- A zero that rounding has left is written with its sign, and what comes back without. -/
theorem Value.zero_loses_sign :
    ∃ j v w, RawJson.read? "\x7b\"decimal\":\"-0.4e-28\"\x7d" = some j ∧ ofRaw? j = some v ∧
      ofJson? v.toJson = some w ∧
      v.toJson.text = "\x7b\"decimal\":\"-0.0000000000000000000000000000\"\x7d" ∧
      w.toJson.text = "\x7b\"decimal\":\"0.0000000000000000000000000000\"\x7d" ∧
      v.toJson ≠ w.toJson := by
  obtain ⟨v, hv, htexts⟩ : ∃ v,
      (RawJson.read? "\x7b\"decimal\":\"-0.4e-28\"\x7d").bind ofRaw? = some v ∧
        (v.toJson.text, (ofJson? v.toJson).map (·.toJson.text)) =
          ("\x7b\"decimal\":\"-0.0000000000000000000000000000\"\x7d",
            some "\x7b\"decimal\":\"0.0000000000000000000000000000\"\x7d") :=
    Option.map_eq_some_iff.mp (by decide +kernel)
  obtain ⟨j, hj, hv⟩ := Option.bind_eq_some_iff.mp hv
  obtain ⟨hfirst, hback⟩ := Prod.mk.inj htexts
  obtain ⟨w, hw, hsecond⟩ := Option.map_eq_some_iff.mp hback
  refine ⟨j, v, w, hj, hv, hw, hfirst, hsecond, fun hsame => ?_⟩
  rw [hsame, hsecond] at hfirst
  revert hfirst
  decide

/-- Where decimals are computed step by step, a double is written as one text after another. -/
theorem Value.double_drifts :
    ∃ v w, (RawJson.readBy? .scaled "\x7b\"double\":9.008700352928634\x7d").bind ofRaw? = some v ∧
      v.toJson.text = "\x7b\"double\":9.008700352928633\x7d" ∧
      (RawJson.readBy? .scaled v.toJson.text).bind ofRaw? = some w ∧
      w.toJson.text = "\x7b\"double\":9.008700352928631\x7d" := by
  obtain ⟨v, hv, htexts⟩ : ∃ v,
      (RawJson.readBy? .scaled "\x7b\"double\":9.008700352928634\x7d").bind ofRaw? = some v ∧
        (v.toJson.text, ((RawJson.readBy? .scaled v.toJson.text).bind ofRaw?).map
          (·.toJson.text)) = ("\x7b\"double\":9.008700352928633\x7d",
            some "\x7b\"double\":9.008700352928631\x7d") :=
    Option.map_eq_some_iff.mp (by decide +kernel)
  obtain ⟨hfirst, hback⟩ := Prod.mk.inj htexts
  obtain ⟨w, hw, hsecond⟩ := Option.map_eq_some_iff.mp hback
  exact ⟨v, w, hv, hfirst, hw, hsecond⟩

end PortableQuery
