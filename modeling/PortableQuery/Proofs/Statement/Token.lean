import PortableQuery.Proofs.Number.Digits

set_option autoImplicit false

/-!
# Tokens of statements

A text is cut into words, names and strings in quotes, placeholders, numbers and signs. The machine
that does it takes one character at a time, always the longest token; the quotes are what a language
chooses.
-/

namespace PortableQuery

/-- A token of a statement. -/
inductive Token where
  | word (s : String)
  /-- A name in quotes, without them. -/
  | name (s : String)
  /-- A string in quotes, without them. -/
  | text (s : String)
  /-- A placeholder: its sigil, and its name or number. -/
  | parameter (sigil : Char) (s : String)
  | number (n : Nat)
  | sign (s : String)
deriving DecidableEq, Repr

/-- The token is this word in capitals, in whatever case it is written. -/
def Token.isWord (capitals : String) : Token → Bool
  | .word s => s.toList.map Char.toUpper == capitals.toList
  | _ => false

namespace Lexer

/-! ## The machine -/

/-- White space. -/
def isBlank (c : Char) : Bool := c = ' ' || c = '\n' || c = '\t' || c = '\r'

/-- A character of words, numbers and placeholders. -/
def isWordChar (c : Char) : Bool := c.isAlphanum || c = '_' || c = '$' || c = '@'

/-- A character of comparisons. -/
def isOperatorChar (c : Char) : Bool := c = '<' || c = '>' || c = '='

/-- A sign that stands for itself. -/
def isSign (c : Char) : Bool := c ∈ ['(', ')', '[', ']', ',', '.', '*', '?']

/-- A character that belongs to no token begun before it. -/
def cuts (c : Char) : Bool := isBlank c || isSign c

theorem not_cuts_doubleQuote : cuts '"' = false := by decide

/-- The token of a row of word characters: a placeholder, a number or a word. -/
def wordToken? : List Char → Option Token
  | [] => none
  | c :: cs =>
    if c = '$' ∨ c = '@' then some (.parameter c (String.ofList cs))
    else if c.isDigit then
      if cs.all Char.isDigit then some (.number (Digits.value (c :: cs))) else none
    else some (.word (String.ofList (c :: cs)))

/-- A kind of quotes. Its mark stands inside as itself behind a backslash if the quotes have
escapes, and doubled if they have none. -/
structure Quote where
  mark : Char
  escapes : Bool
  /-- The token of what stands inside; of doubled marks only one is left there. -/
  token? : List Char → Option Token
  not_cuts_mark : cuts mark = false := by decide

variable (quotes : List Quote)

/-- Where the machine stands: between tokens, or in one of which it has read `cs`. -/
inductive State where
  | between
  | word (cs : List Char)
  | operator (cs : List Char)
  /-- In quotes; `escaped` says that the next character follows a backslash. -/
  | inside (q : Quote) (mem : q ∈ quotes) (cs : List Char) (escaped : Bool)
  /-- Behind the mark that closes quotes, unless it is the first of two. -/
  | closed (q : Quote) (mem : q ∈ quotes) (cs : List Char)

variable {quotes}

/-- The token that the machine stands in, if it may end here. -/
def finish : State quotes → Option (List Token)
  | .between => some []
  | .word cs => (wordToken? cs).map ([·])
  | .operator cs => some [.sign (String.ofList cs)]
  | .inside .. => none
  | .closed q _ cs => (q.token? cs).map ([·])

variable (quotes) in
/-- What a character between tokens begins. -/
def start (c : Char) : Option (List Token × State quotes) :=
  if isBlank c then some ([], .between)
  else if isSign c then some ([.sign (String.singleton c)], .between)
  else if isWordChar c then some ([], .word [c])
  else if isOperatorChar c then some ([], .operator [c])
  else
    match h : quotes.find? (·.mark == c) with
    | some q => some ([], .inside q (List.mem_of_find?_eq_some h) [] false)
    | none => none

/-- What a character begins that cannot belong to the token before it. -/
def startAfter (s : State quotes) (c : Char) : Option (List Token × State quotes) := do
  let ts ← finish s
  let (us, s) ← start quotes c
  pure (ts ++ us, s)

/-- One character: the tokens that it completes, and where the machine stands behind it. -/
def step : State quotes → Char → Option (List Token × State quotes)
  | .between, c => start quotes c
  | .word cs, c => if isWordChar c then some ([], .word (cs ++ [c])) else startAfter (.word cs) c
  | .operator cs, c =>
    if isOperatorChar c then some ([], .operator (cs ++ [c])) else startAfter (.operator cs) c
  | .inside q h cs true, c => some ([], .inside q h (cs ++ [c]) false)
  | .inside q h cs false, c =>
    if c = q.mark then some ([], .closed q h cs)
    else some ([], .inside q h (cs ++ [c]) (q.escapes && c == '\\'))
  | .closed q h cs, c =>
    if !q.escapes && c == q.mark then some ([], .inside q h (cs ++ [c]) false)
    else startAfter (.closed q h cs) c

/-- Several characters. -/
def run : State quotes → List Char → Option (List Token × State quotes)
  | s, [] => some ([], s)
  | s, c :: cs => do
    let (ts, s) ← step s c
    let (us, s) ← run s cs
    pure (ts ++ us, s)

variable (quotes) in
/-- The tokens of a text. -/
def tokens? (text : String) : Option (List Token) := do
  let (ts, s) ← run (.between : State quotes) text.toList
  let us ← finish s
  pure (ts ++ us)

/-! ## Texts side by side -/

theorem run_append {s s' : State quotes} {xs : List Char} {ts : List Token} (ys : List Char)
    (h : run s xs = some (ts, s')) :
    run s (xs ++ ys) = (run s' ys).map fun (us, s) => (ts ++ us, s) := by
  induction xs generalizing s ts with
  | nil =>
    obtain ⟨rfl, rfl⟩ := Prod.mk.inj (Option.some.inj h)
    cases hr : run s ys <;> simp [hr]
  | cons c cs ih =>
    simp only [run, Option.bind_eq_bind, Option.bind_eq_some_iff] at h
    obtain ⟨⟨us, s₁⟩, hc, ⟨vs, s₂⟩, hcs, h⟩ := h
    obtain ⟨rfl, rfl⟩ := Prod.mk.inj (Option.some.inj h)
    simp only [List.cons_append, run, hc, Option.bind_eq_bind, Option.bind_some, ih hcs]
    cases run s₂ ys <;> simp

theorem not_isWordChar_of_cuts {c : Char} (h : cuts c = true) : isWordChar c = false := by
  simp only [cuts, isBlank, isSign, Bool.or_eq_true, decide_eq_true_eq, List.mem_cons,
    List.not_mem_nil, or_false] at h
  rcases h with (((rfl | rfl) | rfl) | rfl) | rfl | rfl | rfl | rfl | rfl | rfl | rfl | rfl <;> rfl

theorem not_isOperatorChar_of_cuts {c : Char} (h : cuts c = true) : isOperatorChar c = false := by
  simp only [cuts, isBlank, isSign, Bool.or_eq_true, decide_eq_true_eq, List.mem_cons,
    List.not_mem_nil, or_false] at h
  rcases h with (((rfl | rfl) | rfl) | rfl) | rfl | rfl | rfl | rfl | rfl | rfl | rfl | rfl <;> rfl

/-- A character that cuts ends the token before it. -/
theorem step_of_cuts {s : State quotes} {c : Char} {ts : List Token} (hc : cuts c = true)
    (hs : finish s = some ts) :
    step s c = (start quotes c).map fun (us, s) => (ts ++ us, s) := by
  have hafter : startAfter s c = (start quotes c).map fun (us, s) => (ts ++ us, s) := by
    rw [startAfter, hs]
    cases start quotes c <;> rfl
  cases s with
  | between =>
    obtain rfl := Option.some.inj hs
    cases h : start quotes c <;> simp [step, h]
  | word cs => rw [step, not_isWordChar_of_cuts hc]; exact hafter
  | operator cs => rw [step, not_isOperatorChar_of_cuts hc]; exact hafter
  | inside q h cs e => cases hs
  | closed q h cs =>
    have hm : c ≠ q.mark := by
      rintro rfl
      exact absurd hc (by simp [q.not_cuts_mark])
    rw [step, beq_false_of_ne hm, Bool.and_false]
    exact hafter

variable (quotes) in
/-- The text is these tokens. -/
def Spells (text : String) (ts : List Token) : Prop := tokens? quotes text = some ts

variable (quotes) in
/-- The text is these tokens, the last of which is complete. -/
def Closes (text : String) (ts : List Token) : Prop :=
  run (.between : State quotes) text.toList = some (ts, .between)

/-- The text starts with a character that cuts. -/
def StartsCutting (text : String) : Prop := text.toList.head?.any cuts = true

instance (text : String) : Decidable (StartsCutting text) := by
  unfold StartsCutting
  infer_instance

theorem StartsCutting.append {a : String} (h : StartsCutting a) (b : String) :
    StartsCutting (a ++ b) := by
  unfold StartsCutting at h ⊢
  rw [String.toList_append]
  cases ha : a.toList with
  | nil => simp [ha] at h
  | cons c cs => simpa [ha] using h

theorem empty_or_startsCutting_append {a b : String} (ha : a = "" ∨ StartsCutting a)
    (hb : b = "" ∨ StartsCutting b) : a ++ b = "" ∨ StartsCutting (a ++ b) := by
  rcases ha with rfl | ha
  · rwa [String.empty_append]
  · exact .inr (ha.append b)

theorem spells_iff {text : String} {ts : List Token} :
    Spells quotes text ts ↔ ∃ us s vs, run (.between : State quotes) text.toList = some (us, s) ∧
      finish s = some vs ∧ us ++ vs = ts := by
  simp only [Spells, tokens?, Option.bind_eq_bind, Option.bind_eq_some_iff, Option.pure_def,
    Option.some.injEq]
  constructor
  · rintro ⟨⟨us, s⟩, hr, vs, hf, h⟩
    exact ⟨us, s, vs, hr, hf, h⟩
  · rintro ⟨us, s, vs, hr, hf, h⟩
    exact ⟨(us, s), hr, vs, hf, h⟩

theorem Closes.spells {a : String} {ts : List Token} (h : Closes quotes a ts) :
    Spells quotes a ts :=
  spells_iff.mpr ⟨ts, .between, [], h, rfl, List.append_nil ts⟩

theorem closes_empty : Closes quotes "" [] := rfl

theorem Closes.append {a b : String} {ts us : List Token} (ha : Closes quotes a ts)
    (hb : Spells quotes b us) : Spells quotes (a ++ b) (ts ++ us) := by
  obtain ⟨vs, s, ws, hr, hf, rfl⟩ := spells_iff.mp hb
  refine spells_iff.mpr ⟨ts ++ vs, s, ws, ?_, hf, List.append_assoc ..⟩
  rw [String.toList_append, run_append _ ha, hr]
  rfl

/-- A run from where a token may end is a fresh run, if the text starts with a character that
cuts. -/
theorem run_of_startsCutting {s : State quotes} {b : String} {ts : List Token}
    (hb : StartsCutting b) (hs : finish s = some ts) :
    run s b.toList =
      (run (.between : State quotes) b.toList).map fun (us, s) => (ts ++ us, s) := by
  obtain ⟨c, hc, hcut⟩ := (Option.any_eq_true _ _).mp hb
  obtain ⟨cs, hcs⟩ := List.head?_eq_some_iff.mp hc
  rw [hcs, run, run, step_of_cuts hcut hs, show step .between c = start quotes c from rfl]
  cases start quotes c with
  | none => rfl
  | some r =>
    simp only [Option.map_some, Option.bind_eq_bind, Option.bind_some]
    cases run r.2 cs <;> simp

theorem Spells.append_closes {a b : String} {ts us : List Token} (ha : Spells quotes a ts)
    (hb : Closes quotes b us) (hcut : StartsCutting b) :
    Closes quotes (a ++ b) (ts ++ us) := by
  obtain ⟨vs, s, ws, hr, hf, rfl⟩ := spells_iff.mp ha
  rw [Closes, String.toList_append, run_append _ hr, run_of_startsCutting hcut hf, hb]
  simp

/-- **Texts side by side are the tokens of both, if the second is empty or starts with a character
that cuts.** -/
theorem Spells.append {a b : String} {ts us : List Token} (ha : Spells quotes a ts)
    (hb : Spells quotes b us) (hcut : b = "" ∨ StartsCutting b) :
    Spells quotes (a ++ b) (ts ++ us) := by
  rcases hcut with rfl | hcut
  · obtain rfl : [] = us := Option.some.inj hb
    simpa using ha
  obtain ⟨vs, s, ws, hr, hf, rfl⟩ := spells_iff.mp ha
  obtain ⟨vs', s', ws', hr', hf', rfl⟩ := spells_iff.mp hb
  refine spells_iff.mpr ⟨vs ++ (ws ++ vs'), s', ws', ?_, hf', by simp⟩
  rw [String.toList_append, run_append _ hr, run_of_startsCutting hcut hf, hr']
  rfl

/-! ## Words and numbers -/

theorem not_cuts_of_isWordChar {c : Char} (h : isWordChar c = true) : cuts c = false := by
  rw [Bool.eq_false_iff]
  intro hc
  rw [not_isWordChar_of_cuts hc] at h
  cases h

theorem run_word (cs : List Char) {ds : List Char} (h : ∀ c ∈ ds, isWordChar c = true) :
    run (.word cs : State quotes) ds = some ([], .word (cs ++ ds)) := by
  induction ds generalizing cs with
  | nil => rw [run, List.append_nil]
  | cons d ds ih =>
    rw [run, step, if_pos (h d (by simp))]
    simp [ih (cs ++ [d]) fun c hc => h c (List.mem_cons_of_mem _ hc)]

theorem spells_word {text : String} {t : Token} (h : ∀ c ∈ text.toList, isWordChar c = true)
    (ht : wordToken? text.toList = some t) : Spells quotes text [t] := by
  refine spells_iff.mpr ⟨[], .word text.toList, [t], ?_, by rw [finish, ht]; rfl, rfl⟩
  cases hcs : text.toList with
  | nil => simp [hcs, wordToken?] at ht
  | cons c cs =>
    have hc : isWordChar c = true := h c (by simp [hcs])
    obtain ⟨hb, hg⟩ : isBlank c = false ∧ isSign c = false := by
      simpa [cuts] using not_cuts_of_isWordChar hc
    have hr : run (.word [c] : State quotes) cs = some ([], .word ([c] ++ cs)) :=
      run_word [c] fun x hx => h x (by rw [hcs]; exact List.mem_cons_of_mem c hx)
    rw [run, step, start, hb, hg, if_pos hc]
    simp [hr]

theorem isWordChar_of_isDigit {c : Char} (h : c.isDigit = true) : isWordChar c = true := by
  simp [isWordChar, Char.isAlphanum, h]

theorem spells_number (n : Nat) : Spells quotes (toString n) [.number n] := by
  have hl : (toString n).toList = Nat.toDigits 10 n := Nat.toList_repr
  refine spells_word (fun c hc => ?_) ?_
  · rw [hl] at hc
    exact isWordChar_of_isDigit (Digits.isDigit_of_mem_toDigits hc)
  · rw [hl]
    cases h : Nat.toDigits 10 n with
    | nil => exact absurd h Nat.toDigits_ne_nil
    | cons c cs =>
      have hd : ∀ x ∈ c :: cs, x.isDigit = true :=
        fun x hx => Digits.isDigit_of_mem_toDigits (h ▸ hx)
      have hc : ¬ (c = '$' ∨ c = '@') := by
        rintro (rfl | rfl) <;> exact absurd (hd _ List.mem_cons_self) (by decide)
      have hcs : cs.all Char.isDigit = true :=
        List.all_eq_true.mpr fun x hx => hd x (List.mem_cons_of_mem _ hx)
      rw [wordToken?, if_neg hc, if_pos (hd c (by simp)), if_pos hcs, ← h, Digits.value_toDigits]

theorem spells_parameter {sigil : Char} (hs : sigil = '$' ∨ sigil = '@') {name : String}
    (h : ∀ c ∈ name.toList, isWordChar c = true) :
    Spells quotes (String.singleton sigil ++ name) [.parameter sigil name] := by
  have hl : (String.singleton sigil ++ name).toList = sigil :: name.toList := by simp
  refine spells_word (fun c hc => ?_) ?_
  · rw [hl] at hc
    rcases List.mem_cons.mp hc with rfl | hc
    · rcases hs with rfl | rfl <;> rfl
    · exact h c hc
  · rw [hl, wordToken?, if_pos hs, String.ofList_toList]

/-! ## Quotes -/

section Inside

variable {q : Quote} {xs ys xs' ys' : List Char}

variable (quotes) in
/-- The characters `xs` stand inside the quotes, and `ys` is what they leave there. -/
def Inside (q : Quote) (xs ys : List Char) : Prop :=
  ∀ (h : q ∈ quotes) (cs : List Char),
    run (.inside q h cs false) xs = some ([], .inside q h (cs ++ ys) false)

theorem inside_nil : Inside quotes q [] [] := fun _ cs => by rw [run, List.append_nil]

theorem Inside.append (h : Inside quotes q xs ys) (h' : Inside quotes q xs' ys') :
    Inside quotes q (xs ++ xs') (ys ++ ys') := by
  intro hq cs
  rw [run_append _ (h hq cs), h' hq, ← List.append_assoc]
  rfl

theorem inside_flatMap {f g : Char → List Char} (h : ∀ c, Inside quotes q (f c) (g c))
    (cs : List Char) : Inside quotes q (cs.flatMap f) (cs.flatMap g) := by
  induction cs with
  | nil => exact inside_nil
  | cons c cs ih =>
    rw [List.flatMap_cons, List.flatMap_cons]
    exact (h c).append ih

theorem inside_of_ne_mark {c : Char} (he : q.escapes = false) (hc : c ≠ q.mark) :
    Inside quotes q [c] [c] := by
  intro h cs
  simp [run, step, he, hc]

theorem inside_of_ne {c : Char} (hc : c ≠ q.mark) (hb : c ≠ '\\') : Inside quotes q [c] [c] := by
  intro h cs
  simp [run, step, hc, hb]

theorem inside_escape (he : q.escapes = true) (hm : q.mark ≠ '\\') (c : Char) :
    Inside quotes q ['\\', c] ['\\', c] := by
  intro h cs
  simp [run, step, he, hm.symm]

/-- **What stands in quotes is one token.** -/
theorem spells_quoted {t : Token} (hq : q ∈ quotes)
    (hstart : start quotes q.mark = some ([], .inside q hq [] false))
    (h : Inside quotes q xs ys) (ht : q.token? ys = some t) :
    Spells quotes (String.ofList (q.mark :: (xs ++ [q.mark]))) [t] := by
  refine spells_iff.mpr ⟨[], .closed q hq ys, [t], ?_, by rw [finish, ht]; rfl, rfl⟩
  have hclose : run (.inside q hq ys false) [q.mark] = some ([], .closed q hq ys) := by
    simp [run, step]
  rw [String.toList_ofList, run, show step .between q.mark = start quotes q.mark from rfl, hstart]
  simp only [Option.bind_eq_bind, Option.bind_some]
  rw [run_append _ (h hq []), List.nil_append, hclose]
  rfl

end Inside

end Lexer

end PortableQuery
