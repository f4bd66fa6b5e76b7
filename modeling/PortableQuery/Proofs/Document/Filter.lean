import PortableQuery.Document.Find
import PortableQuery.Proofs.Document.Reading
import PortableQuery.Proofs.Lowering.Keys

set_option autoImplicit false

/-!
# Document filters are read back

* **`Document.reads_lowerCondition`**: a lowered condition is read as the condition, and as nothing
  else;
* **`Document.reads_filter`**: so is the filter of a compiled command, and commands with the same
  filter come from conditions with equal operators, paths and document forms.
-/

namespace PortableQuery.Document

variable {config : CompilerConfig} {entity : String}

/-! ## The grammar -/

theorem Restricts.unique {ops : Json} {o o' : Operator} {j j' : Json} (h : Restricts ops o j)
    (h' : Restricts ops o' j') : o = o' ∧ j = j' := by
  cases h with
  | single hkey =>
    cases h' with
    | single hkey' => exact ⟨Option.some.inj (hkey.symm.trans hkey'), rfl⟩
  | range =>
    cases h' with
    | range => exact ⟨rfl, rfl⟩

theorem not_restricts_negation {ops operand : Json} {o : Operator} :
    ¬ Restricts (.object [⟨"$not", ops⟩]) o operand := by
  intro h
  cases h with
  | single hkey => cases hkey

theorem isDollar_of_connective? {key : String} {c : Connective} (h : connective? key = some c) :
    isDollar key = true := by
  unfold connective? at h
  split at h
  · next hkey => subst hkey; rfl
  · split at h
    · next hkey => subst hkey; rfl
    · cases h

theorem reads_restricted {path : String} {ops operand : Json} {o : Operator}
    (hp : isDollar path = false) (h : Restricts ops o operand) (t : Formula (Comparison Json)) :
    Reads (.object [⟨path, ops⟩]) t ↔ t = .atom ⟨o, path, operand⟩ := by
  constructor
  · intro ht
    cases ht with
    | join hkey => rw [isDollar_of_connective? hkey] at hp; cases hp
    | restricted _ h' =>
      obtain ⟨rfl, rfl⟩ := h.unique h'
      rfl
    | negated _ hn =>
      subst hn
      exact absurd h not_restricts_negation
  · rintro rfl
    exact .restricted hp h

theorem reads_negated {path : String} {ops operand : Json} {o : Operator}
    (hp : isDollar path = false) (h : Restricts ops o operand) (t : Formula (Comparison Json)) :
    Reads (.object [⟨path, .object [⟨"$not", ops⟩]⟩]) t ↔ t = .not (.atom ⟨o, path, operand⟩) := by
  constructor
  · intro ht
    generalize hn : "$not" = negation at ht
    cases ht with
    | restricted _ h' =>
      subst hn
      exact absurd h' not_restricts_negation
    | negated _ _ h' =>
      obtain ⟨rfl, rfl⟩ := h.unique h'
      rfl
  · rintro rfl
    exact .negated hp rfl h

theorem reads_join (c : Connective) {parts : List Json} {fs : List (Formula (Comparison Json))}
    (h : List.Forall₂ (fun j f => ∀ t, Reads j t ↔ t = f) parts fs)
    (t : Formula (Comparison Json)) : Reads (join c parts) t ↔ t = .join c fs := by
  have hparts (gs : List (Formula (Comparison Json))) : List.Forall₂ Reads parts gs ↔ gs = fs := by
    induction h generalizing gs with
    | nil => simp
    | cons hj _ ih => simp [List.forall₂_cons_left_iff, hj, ih]
  obtain ⟨key, hkey, hjoin⟩ : ∃ key, connective? key = some c ∧
      join c parts = .object [⟨key, .array parts⟩] := by
    cases c
    · exact ⟨"$and", rfl, rfl⟩
    · exact ⟨"$or", rfl, rfl⟩
  rw [hjoin]
  constructor
  · intro ht
    cases ht with
    | join hkey' h' =>
      rw [(hparts _).mp h', Option.some.inj (hkey'.symm.trans hkey)]
    | restricted hp => rw [isDollar_of_connective? hkey] at hp; cases hp
  · rintro rfl
    exact .join hkey ((hparts fs).mpr rfl)

/-! ## Predicates -/

theorem encode_of_toNative {scope : Scope} {v : Value} {j : Json}
    (h : (dialect (Except QueryError)).toNative scope v = .ok j) : encode scope v = .ok j := by
  simpa only [dialect, ofExcept_eq] using h

theorem restricts_operators {scope : Scope} {o : Operator} {v : Value} {x : Operand Json}
    {name path : String} {ops : Json} {b b' : Binder Json}
    (hx : (dialect (Except QueryError)).Converts scope o v x)
    (h : operators ⟨o, name, path, x⟩ b = .ok (ops, b')) :
    ∃ operand, Restricts ops o operand ∧ (encode? v).map (operandOf o) = some operand := by
  cases hx with
  | @range lower upper l u hl hu =>
    obtain ⟨_, _, h⟩ := bind_eq_ok.mp h
    obtain ⟨rfl, -⟩ := Prod.mk.inj (pure_eq_ok.mp h)
    have hlist := encode?_list (.cons (encode_of_toNative hl) (.cons (encode_of_toNative hu) .nil))
    exact ⟨.array [l, u], .range rfl rfl, by rw [hlist]; rfl⟩
  | @choice items ns _ _ hns =>
    obtain ⟨_, _, h⟩ := bind_eq_ok.mp h
    obtain ⟨rfl, -⟩ := Prod.mk.inj (pure_eq_ok.mp h)
    have hlist := encode?_list (hns.imp fun _ _ => encode_of_toNative)
    exact ⟨.array ns, .single rfl, by rw [hlist]; rfl⟩
  | @pattern s n hn =>
    obtain rfl : .string s = n := Except.ok.inj (encode_of_toNative hn)
    obtain ⟨_, _, h⟩ := bind_eq_ok.mp h
    obtain ⟨rfl, -⟩ := Prod.mk.inj (pure_eq_ok.mp h)
    exact ⟨.string (regexOfLike s), .single rfl, rfl⟩
  | @value _ _ n hb hi hl hn =>
    have hbind : operators ⟨o, name, path, .single n⟩ b =
        (b.bind name n >>= fun r => pure (.single (comparison o) n, r.2)) := by
      cases o <;> first | contradiction | rfl
    have hkey : operator? (comparison o) = some o := by
      cases o <;> first | contradiction | rfl
    obtain ⟨_, _, h⟩ := bind_eq_ok.mp (hbind ▸ h)
    obtain ⟨rfl, -⟩ := Prod.mk.inj (pure_eq_ok.mp h)
    refine ⟨n, .single hkey, ?_⟩
    rw [encode?_eq_some (encode_of_toNative hn)]
    cases o <;> first | contradiction | rfl

theorem isDollar_path {name : String} (h : isDollar name = false) :
    isDollar (path config name) = false := by
  unfold path
  split
  · rfl
  · exact h

theorem path_eq (config : CompilerConfig) (name : String) :
    path config name = if name = config.idField then "_id" else name := by
  simp only [path, CompilerConfig.isIdField_iff]
  rfl

theorem exists_restricts {o : Operator} {e : Element} {p : Predicate Json} {f : Json}
    {b b' : Binder Json}
    (hp : (dialect (Except QueryError)).predicate config entity o e = .ok p)
    (hl : lowerPredicate p b = .ok (f, b')) :
    ∃ ops operand, f = .object [⟨path config e.name, ops⟩] ∧
      isDollar (path config e.name) = false ∧ Restricts ops o operand ∧
      (encode? e.value).map (operandOf o) = some operand := by
  obtain ⟨-, x, hx, rfl⟩ := Dialect.converts_of_predicate_eq_ok hp
  obtain ⟨_, hname, hl⟩ := bind_eq_ok.mp hl
  obtain ⟨⟨ops, b₁⟩, hops, hl⟩ := bind_eq_ok.mp hl
  obtain ⟨rfl, -⟩ := Prod.mk.inj (pure_eq_ok.mp hl)
  obtain ⟨operand, hr, hoperand⟩ := restricts_operators hx hops
  refine ⟨ops, operand, rfl, isDollar_path ?_, hr, hoperand⟩
  unfold identifier at hname
  split at hname
  · cases hname
  · next h => exact Bool.eq_false_iff.mpr h

/-! ## Conditions -/

/-- The text can be read in one way only, and that is the condition. -/
def ReadsAs (config : CompilerConfig) (c : Condition) (f : Json) : Prop :=
  ∃ g, (∀ t, Reads f t ↔ t = g) ∧ c.formula.map (written config) = g.map (Comparison.map some)

theorem readsAs_predicate {o : Operator} {e : Element} {ops operand : Json}
    (hp : isDollar (path config e.name) = false) (hr : Restricts ops o operand)
    (hoperand : (encode? e.value).map (operandOf o) = some operand) :
    ReadsAs config (.predicate o e) (.object [⟨path config e.name, ops⟩]) := by
  refine ⟨_, reads_restricted hp hr, ?_⟩
  rw [Condition.formula_predicate, Formula.map_atom, Formula.map_atom, written, hoperand, path_eq]
  rfl

/-- **A lowered condition is read as the condition, and as nothing else.** -/
theorem reads_lowerCondition {c : Condition} {b b' : Binder Json} {f : Json}
    (hc : capabilities.firstUnsupported c = none)
    (h : (dialect (Except QueryError)).lowerCondition config entity c b = .ok (f, b')) :
    ReadsAs config c f := by
  refine Dialect.lowerCondition_induct (R := fun c _ f _ =>
    capabilities.firstUnsupported c = none → ReadsAs config c f) ?_ ?_ ?_ h hc
  · intro o e b p f b' hp hl _
    obtain ⟨ops, operand, rfl, hpath, hr, hoperand⟩ := exists_restricts hp hl
    exact readsAs_predicate hpath hr hoperand
  · intro c cs b fs b' f _ hcs hf hc
    obtain rfl := Except.ok.inj hf
    have hchildren := Capabilities.firstUnsupported_of_join hc
    have hparts : Dialect.Chain (fun c _ f _ => ReadsAs config c f) cs b fs b' :=
      hcs.imp fun c hc b f b' h => h (hchildren c hc)
    obtain ⟨gs, hgs, hmeans⟩ := hparts.exists_forall₂
    refine ⟨.join c gs, reads_join c hgs, ?_⟩
    have hmap : cs.map (fun c => c.formula.map (written config)) =
        gs.map (·.map (Comparison.map some)) := by
      rw [← List.forall₂_eq_eq_eq, List.forall₂_map_left_iff, List.forall₂_map_right_iff]
      exact hmeans
    rw [Condition.formula_join, Formula.map_join, Formula.map_join, List.map_map, ← hmap]
    rfl
  · intro c b f b' g hc hg hnot
    -- only predicates can be negated, and their filters are objects of one path
    obtain ⟨o, e, rfl⟩ := Capabilities.exists_predicate_of_not rfl hnot
    obtain ⟨r, hr, hmeans⟩ := hc (by cases o <;> rfl)
    cases r with
    | join c gs => rw [Formula.map_join] at hmeans; cases hmeans
    | not r => cases hmeans
    | atom a =>
      cases (hr (.atom a)).mpr rfl with
      | @restricted path ops operand o' hpath hrestricts =>
        have hneg : negate (.object [⟨path, ops⟩]) =
            .ok (.object [⟨path, .object [⟨"$not", ops⟩]⟩]) := by
          rw [negate, if_neg (by simp [hpath])]
          rfl
        obtain rfl := Except.ok.inj (hneg.symm.trans hg)
        refine ⟨_, reads_negated hpath hrestricts, ?_⟩
        rw [Condition.formula_not, Formula.map_not, hmeans]
        rfl

/-! ## Keys that start with `$` -/

theorem signs_path {path : String} (hp : isDollar path = false) (ops : Json) :
    signs (.object [⟨path, ops⟩]) = signs ops := by
  simp [signs, signsOfMembers, hp]

theorem signs_negated {path : String} (hp : isDollar path = false) (ops : Json) :
    signs (.object [⟨path, .object [⟨"$not", ops⟩]⟩]) = "$not" :: signs ops := by
  rw [signs_path hp]
  simp [signs, signsOfMembers, holdsFilter, isDollar]

theorem signs_join (c : Connective) (parts : List Json) :
    signs (join c parts) = connectiveKey c :: parts.flatMap signs := by
  rw [← signsOfItems_eq]
  cases c <;>
    simp [join, Json.single, signs, signsOfMembers, holdsFilter, connective?, connectiveKey,
      isDollar]

theorem operatorKeys_of_operator? {key : String} {o : Operator} (h : operator? key = some o) :
    operatorKeys o = [key] ∧ isDollar key = true ∧ holdsFilter key = false := by
  unfold operator? at h
  repeat' split at h
  all_goals cases h
  all_goals
    subst key
    exact ⟨rfl, rfl, rfl⟩

theorem signs_of_restricts {ops operand : Json} {o : Operator} (h : Restricts ops o operand) :
    signs ops = operatorKeys o := by
  cases h with
  | single hkey =>
    obtain ⟨hkeys, hdollar, hfilter⟩ := operatorKeys_of_operator? hkey
    simp [signs, signsOfMembers, hkeys, hdollar, hfilter]
  | range hlow hhigh =>
    obtain ⟨hkeys, hdollar, hfilter⟩ := operatorKeys_of_operator? hlow
    obtain ⟨hkeys', hdollar', hfilter'⟩ := operatorKeys_of_operator? hhigh
    simp only [operatorKeys, List.cons.injEq, and_true] at hkeys hkeys'
    simp [signs, signsOfMembers, operatorKeys, hkeys, hkeys', hdollar, hdollar', hfilter, hfilter']

/-- **The keys that start with `$` are those that the condition takes.** -/
theorem signs_lowerCondition {c : Condition} {b b' : Binder Json} {f : Json}
    (h : (dialect (Except QueryError)).lowerCondition config entity c b = .ok (f, b')) :
    signs f = signsOf c.formula := by
  refine Dialect.lowerCondition_induct (R := fun c _ f _ => signs f = signsOf c.formula)
    ?_ ?_ ?_ h
  · intro o e b p f b' hp hl
    obtain ⟨ops, operand, rfl, hpath, hr, -⟩ := exists_restricts hp hl
    rw [signs_path hpath, signs_of_restricts hr]
    rfl
  · intro c cs b fs b' f _ hcs hf
    obtain rfl := Except.ok.inj hf
    rw [signs_join, Condition.formula_join, signsOf, Formula.fold_join, List.map_map,
      List.flatMap_def, hcs.map_eq]
    rfl
  · intro c b f b' g hc hg
    change negate f = .ok g at hg
    unfold negate at hg
    split at hg
    · next path ops =>
      split at hg
      · cases hg
      · next hpath =>
        have hpath := Bool.eq_false_iff.mpr hpath
        obtain rfl := Except.ok.inj hg
        rw [signs_path hpath] at hc
        rw [Json.single, Json.single, signs_negated hpath, hc]
        rfl
    · cases hg

/-! ## Commands -/

theorem exists_filter {q : Query} {s : Statement Json Json} {c : Condition}
    (hq : q.condition = some c) (h : (dialect (Except QueryError)).compile config q = .ok s) :
    ∃ f, s.filter = some f ∧ s.statement.member? "filter" = some f ∧
      signs f = signsOf c.formula ∧ ReadsAs config c f := by
  have hcap := Dialect.firstUnsupported_of_compile hq h
  obtain ⟨l, hl, hs⟩ := Dialect.exists_lowering_of_compile h
  obtain ⟨_, _, hs⟩ := bind_eq_ok.mp hs
  obtain rfl := pure_eq_ok.mp hs
  cases hl with
  | empty hnone => rw [hq] at hnone; cases hnone
  | @whole c' f b hq' _ hc =>
    obtain rfl := Option.some.inj (hq.symm.trans hq')
    exact ⟨f, rfl, rfl, signs_lowerCondition hc, reads_lowerCondition hcap hc⟩
  | split _ hk _ _ => cases hk

theorem filter_eq_none {q : Query} {s : Statement Json Json} (hq : q.condition = none)
    (h : (dialect (Except QueryError)).compile config q = .ok s) : s.filter = none := by
  obtain ⟨l, hl, hs⟩ := Dialect.exists_lowering_of_compile h
  obtain ⟨_, _, hs⟩ := bind_eq_ok.mp hs
  obtain rfl := pure_eq_ok.mp hs
  cases hl with
  | empty => rfl
  | whole hq' | split hq' => rw [hq] at hq'; cases hq'

/-- **The filter of a compiled command can be read in one way only, and that is the condition: its
connectives, paths and operators, and the document forms of its values. It takes the keys with `$`
that these need, and commands with the same filter have conditions that agree in all of this.** -/
theorem reads_filter {q : Query} {s : Statement Json Json}
    (h : (dialect (Except QueryError)).compile config q = .ok s) :
    (q.condition = none → s.filter = none) ∧
    ∀ c, q.condition = some c → ∃ f, s.filter = some f ∧ s.statement.member? "filter" = some f ∧
      (∃ g, (∀ t, Reads f t ↔ t = g) ∧
        c.formula.map (written config) = g.map (Comparison.map some)) ∧
      signs f = signsOf c.formula ∧
      ∀ (config' : CompilerConfig) (q' : Query) (s' : Statement Json Json) (c' : Condition),
        (dialect (Except QueryError)).compile config' q' = .ok s' → q'.condition = some c' →
        s'.filter = some f → c.formula.map (encoded config) = c'.formula.map (encoded config') := by
  refine ⟨fun hq => filter_eq_none hq h, fun c hq => ?_⟩
  obtain ⟨f, hf, hmember, hsigns, g, hg, hmeans⟩ := exists_filter hq h
  refine ⟨f, hf, hmember, ⟨g, hg, hmeans⟩, hsigns, fun config' q' s' c' h' hq' hf' => ?_⟩
  obtain ⟨f', hf'', -, -, g', hg', hmeans'⟩ := exists_filter hq' h'
  obtain rfl := Option.some.inj (hf'.symm.trans hf'')
  -- one filter has one reading, so the two conditions are written alike
  obtain rfl : g = g' := (hg' g).mp ((hg g).mpr rfl)
  exact Formula.map_eq_map_of_imp (fun _ _ => encoded_eq_of_written_eq) (hmeans.trans hmeans'.symm)

/-- A query whose names and values look like operators. -/
def hostileQuery : Query where
  entity := "$cmd"
  condition := some (.join .and [
    .not (.predicate .between ⟨"a.$gt", .list [.int 1, .map [⟨"not", .null⟩]]⟩),
    .join .or [.predicate .like ⟨"id", .text "$regex%_."⟩],
    .predicate .equals ⟨"and", .map [⟨"or", .list [.text "$where", .bytes [1]]⟩]⟩,
    .predicate .oneOf ⟨" $in", .list [.null, .text "$not"]⟩])

theorem reads_filter_hostileQuery :
    ∃ s, (dialect (Except QueryError)).compile { idField := "id" } hostileQuery = .ok s ∧
      (hostileQuery.condition = none → s.filter = none) ∧
      ∀ c, hostileQuery.condition = some c →
        ∃ f, s.filter = some f ∧ s.statement.member? "filter" = some f ∧
        (∃ g, (∀ t, Reads f t ↔ t = g) ∧
          c.formula.map (written { idField := "id" }) = g.map (Comparison.map some)) ∧
        signs f = signsOf c.formula ∧
        ∀ (config' : CompilerConfig) (q' : Query) (s' : Statement Json Json) (c' : Condition),
          (dialect (Except QueryError)).compile config' q' = .ok s' → q'.condition = some c' →
          s'.filter = some f →
          c.formula.map (encoded { idField := "id" }) = c'.formula.map (encoded config') :=
  ⟨_, rfl, reads_filter rfl⟩

end PortableQuery.Document
