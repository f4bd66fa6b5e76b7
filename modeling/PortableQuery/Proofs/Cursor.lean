import PortableQuery.Proofs.Base64.Canonical
import PortableQuery.Proofs.Text.Blank
import PortableQuery.Query

set_option autoImplicit false

/-!
# Texts of cursor tokens

The text of a token is base64 without padding, so there is no white space in it. What is read as a
token is its text, with white space around it or without; but for the token without bytes: its text
is empty, and an empty text is no token.
-/

namespace PortableQuery

namespace CursorToken

/-! ## The alphabet -/

theorem symbol_of_mem_text {t : CursorToken} {c : Char} (hc : c ∈ t.text.toList) :
    ∃ n < 64, Base64.urlSafe.symbol n = c := by
  have hfill (n : Nat) : Base64.urlSafe.fill n = 0 := rfl
  rw [text, Base64.toList_encode, hfill, List.replicate_zero, List.append_nil] at hc
  obtain ⟨n, hn, rfl⟩ := List.mem_map.mp hc
  exact ⟨n, Base64.lt_of_mem_sextets t.bytes n hn, rfl⟩

theorem isBlank_symbol : ∀ n < 64, Text.isBlank (Base64.urlSafe.symbol n) = false := by decide

theorem isBlank_of_mem_text {t : CursorToken} {c : Char} (hc : c ∈ t.text.toList) :
    Text.isBlank c = false := by
  obtain ⟨n, hn, rfl⟩ := symbol_of_mem_text hc
  exact isBlank_symbol n hn

theorem trims_text (t : CursorToken) {before behind : String} (hbefore : Text.IsBlankText before)
    (hbehind : Text.IsBlankText behind) : Text.Trims (before ++ t.text ++ behind) t.text where
  around := ⟨before, behind, hbefore, hbehind, rfl⟩
  head _ hc := isBlank_of_mem_text (List.mem_of_mem_head? hc)
  last _ hc := isBlank_of_mem_text (List.mem_of_mem_getLast? hc)

/-! ## Reading -/

theorem text_ne_empty {t : CursorToken} (h : t.bytes ≠ []) : t.text ≠ "" := by
  intro hempty
  have hdecode := Base64.decode_encode Base64.lawful_urlSafe t.bytes
  have hnone : Base64.decode Base64.urlSafe "" = .ok [] :=
    Base64.decode_encode Base64.lawful_urlSafe []
  rw [← text, hempty, hnone] at hdecode
  exact h (Except.ok.inj hdecode).symm

/-- **What is read as a token is its text, the white space around it aside.** -/
theorem read_eq_ok_iff {s : String} {t : CursorToken} :
    read s = .ok t ↔ t.bytes ≠ [] ∧ t.text = Text.trim s := by
  constructor
  · intro h
    unfold read at h
    dsimp only at h
    split at h
    · cases h
    · next hne =>
      split at h
      · next bytes hdecode =>
        obtain rfl := Except.ok.inj h
        have htext : text ⟨bytes⟩ = Text.trim s :=
          (Base64.decode_eq_ok_iff Base64.lawful_urlSafe).mp hdecode
        refine ⟨?_, htext⟩
        rintro rfl
        rw [← htext] at hne
        exact hne rfl
      · cases h
  · rintro ⟨hbytes, htext⟩
    have hdecode := Base64.decode_encode Base64.lawful_urlSafe t.bytes
    have hne : t.text.isEmpty = false := by
      simpa using text_ne_empty hbytes
    rw [read]
    simp only [← htext, hne, Bool.false_eq_true, if_false]
    rw [text, hdecode]

theorem exists_invalid_of_read {s : String} {e : QueryError} (h : read s = .error e) :
    ∃ reason, e = .invalid reason := by
  unfold read at h
  dsimp only at h
  split at h
  · exact ⟨_, (Except.error.inj h).symm⟩
  · split at h
    · cases h
    · exact ⟨_, (Except.error.inj h).symm⟩

theorem read_spaced {t : CursorToken} (h : t.bytes ≠ []) {before behind : String}
    (hbefore : Text.IsBlankText before) (hbehind : Text.IsBlankText behind) :
    read (before ++ t.text ++ behind) = .ok t :=
  read_eq_ok_iff.mpr ⟨h, (trims_text t hbefore hbehind).trim_eq.symm⟩

theorem read_text {t : CursorToken} (h : t.bytes ≠ []) : read t.text = .ok t := by
  have hnone : Text.IsBlankText "" := List.forall_mem_nil _
  simpa using read_spaced h hnone hnone

theorem read_text_nil : read (text ⟨[]⟩) = .error (.invalid .emptyCursor) := rfl

end CursorToken

/-! ## One text for each token -/

open CursorToken in
/-- **The text of a token is made of letters, digits, dashes and underscores. If the token has bytes,
its text is read as the token, with any white space around it; nothing else is read as that token,
so texts of the same token are the same but for white space; and what is no text of a token with
bytes is refused as an invalid query.** -/
theorem tokens_have_one_text :
    (∀ t : CursorToken, ∀ c ∈ t.text.toList, c.isAlphanum = true ∨ c = '-' ∨ c = '_') ∧
      (∀ t : CursorToken, t.bytes ≠ [] → ∀ before behind,
        Text.IsBlankText before → Text.IsBlankText behind →
          read (before ++ t.text ++ behind) = .ok t) ∧
      (∀ s t, read s = .ok t ↔ t.bytes ≠ [] ∧ Text.Trims s t.text) ∧
      (∀ s s' u u' t, Text.Trims s u → Text.Trims s' u' →
        read s = .ok t → read s' = .ok t → u = u') ∧
      (∀ s, (∀ t, read s ≠ .ok t) → ∃ reason, read s = .error (.invalid reason)) := by
  refine ⟨fun t c hc => ?_, fun t h _ _ => read_spaced h, fun s t => ?_,
    fun s s' u u' t hu hu' h h' => ?_, fun s h => ?_⟩
  · have halphabet : ∀ n < 64, (Base64.urlSafe.symbol n).isAlphanum = true ∨
        Base64.urlSafe.symbol n = '-' ∨ Base64.urlSafe.symbol n = '_' := by decide
    obtain ⟨n, hn, rfl⟩ := symbol_of_mem_text hc
    exact halphabet n hn
  · rw [read_eq_ok_iff, eq_comm (a := t.text), Text.trim_eq_iff]
  · calc u = Text.trim s := hu.trim_eq.symm
      _ = t.text := (read_eq_ok_iff.mp h).2.symm
      _ = Text.trim s' := (read_eq_ok_iff.mp h').2
      _ = u' := hu'.trim_eq
  · cases hread : read s with
    | ok t => exact absurd hread (h t)
    | error e =>
      obtain ⟨reason, rfl⟩ := exists_invalid_of_read hread
      exact ⟨reason, rfl⟩

/-- A token of four bytes. Its text is read behind an ideographic space and before a line feed, and
it is refused with another last character, one that leaves a bit behind the last byte. -/
theorem tokens_have_one_text_spaced :
    (⟨[251, 255, 191, 0]⟩ : CursorToken).text = "-_-_AA" ∧
      CursorToken.read "\u3000 -_-_AA\n" = .ok ⟨[251, 255, 191, 0]⟩ ∧
      ∃ reason, CursorToken.read "-_-_AB" = .error (.invalid reason) := by
  obtain ⟨-, hspaced, -, -, hrefused⟩ := tokens_have_one_text
  have hblank : Text.IsBlankText "\u3000 " ∧ Text.IsBlankText "\n" := by
    constructor <;> simp [Text.IsBlankText] <;> decide
  have hbit : (CursorToken.read "-_-_AB").toOption = none := by decide +kernel
  refine ⟨by decide +kernel,
    hspaced ⟨[251, 255, 191, 0]⟩ (by decide) "\u3000 " "\n" hblank.1 hblank.2, ?_⟩
  refine hrefused "-_-_AB" fun t ht => ?_
  rw [ht] at hbit
  cases hbit

end PortableQuery
