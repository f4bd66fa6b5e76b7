import PortableQuery.Proofs.Lowering.Fault
import PortableQuery.Proofs.Search.Selection

set_option autoImplicit false

/-!
# The window of a search

A search may not reach beyond the result window. The rows skipped and asked for are added in 64 bits
and not above the largest number of these, so the check is that of the natural numbers except for
the largest window, which every sum is within.
-/

namespace PortableQuery.Search

/-! ## Arithmetic -/

/-- The largest number of 64 bits. -/
def largest : UInt64 := 18446744073709551615

theorem toNat_le_largest (a : UInt64) : a.toNat ≤ largest.toNat := by
  have h := a.toNat_lt
  simp only [largest, UInt64.reduceToNat]
  omega

theorem toNat_minusUpTo (a b : UInt64) : (minusUpTo a b).toNat = a.toNat - b.toNat := by
  unfold minusUpTo
  split
  · next h =>
    rw [UInt64.le_iff_toNat_le] at h
    rw [UInt64.toNat_zero, Nat.sub_eq_zero_of_le h]
  · next h => exact UInt64.toNat_sub_of_le _ _ (UInt64.le_of_lt (UInt64.not_le.mp h))

theorem toNat_plusUpTo (a b : UInt64) :
    (plusUpTo a b).toNat = min (a.toNat + b.toNat) largest.toNat := by
  have hlt : min (a.toNat + b.toNat) largest.toNat < UInt64.size :=
    Nat.lt_of_le_of_lt (Nat.min_le_right ..) (by decide)
  exact UInt64.toNat_ofNat_of_lt' hlt

/-- The rows that a search asks for: its limit, or what the window leaves behind those skipped. -/
def rowsAsked (window skip limit : UInt64) : Nat :=
  if limit = 0 then window.toNat - skip.toNat else limit.toNat

/-- The rows of a search lie within the window. -/
def Within (window skip limit : UInt64) : Prop :=
  if limit = 0 then skip.toNat ≤ window.toNat else skip.toNat + limit.toNat ≤ window.toNat

instance (window skip limit : UInt64) : Decidable (Within window skip limit) :=
  inferInstanceAs (Decidable (if limit = 0 then _ else _))

theorem toNat_size (window skip limit : UInt64) :
    (size window skip limit).toNat = rowsAsked window skip limit := by
  by_cases h : limit = 0
  · rw [rowsAsked, if_pos h, h]
    exact toNat_minusUpTo window skip
  · rw [rowsAsked, if_neg h, size, if_pos (UInt64.pos_iff_ne_zero.mpr h)]

theorem within_iff {window skip limit : UInt64} :
    Within window skip limit ↔ skip.toNat + rowsAsked window skip limit ≤ window.toNat := by
  unfold Within rowsAsked
  split
  · omega
  · rfl

/-- **The check accepts what is within the window, and everything where the window is the largest
there is.** -/
theorem fits_iff (window skip limit : UInt64) :
    fits window skip (size window skip limit) = true ↔
      Within window skip limit ∨ window = largest := by
  have hlargest : window = largest ↔ largest.toNat ≤ window.toNat := by
    rw [← UInt64.toNat_inj]
    have := toNat_le_largest window
    omega
  rw [fits, Bool.not_eq_true', decide_eq_false_iff_not, UInt64.lt_iff_toNat_lt, toNat_plusUpTo,
    toNat_size, within_iff, hlargest]
  omega

/-! ## Bodies -/

variable {index : Index} {config : CompilerConfig} {q : Query} {s : Statement Json Json}

theorem member?_size (h : (dialect (Except QueryError) index).compile config q = .ok s) :
    s.statement.member? "size" =
      some (.int (rowsAsked config.maxResultWindow q.skip q.limit)) := by
  obtain ⟨l, -, hs⟩ := Dialect.exists_lowering_of_compile h
  rw [eq_of_assemble hs, ← toNat_size]
  unfold frameOf sourceMember sortMember fromMember
  split <;> split <;> split <;> rfl

theorem member?_from (h : (dialect (Except QueryError) index).compile config q = .ok s) :
    s.statement.member? "from" = if q.skip = 0 then none else some (.int q.skip.toNat) := by
  obtain ⟨l, -, hs⟩ := Dialect.exists_lowering_of_compile h
  have hskip : 0 < q.skip ↔ ¬ q.skip = 0 := UInt64.pos_iff_ne_zero
  rw [eq_of_assemble hs]
  unfold frameOf sourceMember sortMember fromMember
  simp only [hskip, ite_not]
  split <;> split <;> split <;> rfl

/-! ## Searches -/

/-- The query in another window of its own and of the store. -/
def CompilesElsewhere (index : Index) (config : CompilerConfig) (q : Query) : Prop :=
  ∃ window skip limit s, (dialect (Except QueryError) index).compile
    { config with maxResultWindow := window } { q with skip := skip, limit := limit } = .ok s

theorem assemble_eq (l : Lowered Json Json) :
    assemble index config q l =
      if fits config.maxResultWindow q.skip (size config.maxResultWindow q.skip q.limit) then
        .ok (l.finish q index.name (.object (⟨"query", .single "bool" (.single "filter"
          (.array (clauses index q l)))⟩ :: frameOf config q)))
      else .error (.invalid (.window q.skip (size config.maxResultWindow q.skip q.limit)
        config.maxResultWindow)) := by
  simp [assemble, frameOf]

theorem exists_lowered (h : CompilesElsewhere index config q) :
    ∃ l, (dialect (Except QueryError) index).lowered config q = .ok l := by
  obtain ⟨window, skip, limit, s, h⟩ := h
  rw [Dialect.compile_eq_bind] at h
  obtain ⟨l, hl, -⟩ := bind_eq_ok.mp h
  refine ⟨l, ?_⟩
  rw [← hl]
  exact Dialect.lowered_congr rfl rfl rfl rfl rfl rfl

/-- **A query without another fault is compiled if and only if its rows lie within the window, or
the window is the largest there is; else the window is what is reported. What is compiled asks for
its limit or for what the window leaves, behind the rows that it skips.** -/
theorem compiles_iff_within (h : CompilesElsewhere index config q) :
    ((∃ s, (dialect (Except QueryError) index).compile config q = .ok s) ↔
        Within config.maxResultWindow q.skip q.limit ∨ config.maxResultWindow = largest) ∧
      (∀ e, (dialect (Except QueryError) index).compile config q = .error e →
        e = .invalid (.window q.skip (size config.maxResultWindow q.skip q.limit)
          config.maxResultWindow)) ∧
      ∀ s, (dialect (Except QueryError) index).compile config q = .ok s →
        s.statement.member? "size" =
            some (.int (rowsAsked config.maxResultWindow q.skip q.limit)) ∧
          s.statement.member? "from" = (if q.skip = 0 then none else some (.int q.skip.toNat)) ∧
          (Within config.maxResultWindow q.skip q.limit ↔
            q.skip.toNat + rowsAsked config.maxResultWindow q.skip q.limit ≤
              config.maxResultWindow.toNat) := by
  obtain ⟨l, hl⟩ := exists_lowered h
  have hcompile : (dialect (Except QueryError) index).compile config q =
      assemble index config q l := by
    rw [Dialect.compile_eq_bind, hl]
    rfl
  refine ⟨?_, fun e he => ?_, fun s hs => ⟨member?_size hs, member?_from hs, within_iff⟩⟩
  · rw [hcompile, assemble_eq, ← fits_iff]
    split
    · next hfits => exact iff_of_true ⟨_, rfl⟩ hfits
    · next hfits => exact iff_of_false (by simp) hfits
  · rw [hcompile, assemble_eq] at he
    split at he
    · cases he
    · exact (Except.error.inj he).symm

/-- A search for one row fewer than the largest number, behind one row. -/
def farQuery : Query where
  entity := "Person"
  skip := 1
  limit := largest - 1

/-- The search is refused in a window that one row is missing from, and compiled in the next one. -/
theorem compiles_iff_within_farQuery :
    CompilesElsewhere ⟨"catalog", "kind"⟩ {} farQuery ∧
      ¬ (∃ s, (dialect (Except QueryError) ⟨"catalog", "kind"⟩).compile
        { maxResultWindow := largest - 1 } farQuery = .ok s) ∧
      ∃ s, (dialect (Except QueryError) ⟨"catalog", "kind"⟩).compile
        { maxResultWindow := largest } farQuery = .ok s ∧
          s.statement.member? "size" = some (.int 18446744073709551614) ∧
          s.statement.member? "from" = some (.int 1) := by
  have helsewhere (window : UInt64) :
      CompilesElsewhere ⟨"catalog", "kind"⟩ { maxResultWindow := window } farQuery :=
    ⟨1, 0, 1, _, rfl⟩
  obtain ⟨hnarrow, -⟩ := compiles_iff_within (helsewhere (largest - 1))
  obtain ⟨hwide, -, hmembers⟩ := compiles_iff_within (helsewhere largest)
  refine ⟨helsewhere _, fun h => ?_, ?_⟩
  · rcases hnarrow.mp h with hwithin | hlargest
    · exact absurd hwithin (by decide)
    · exact absurd hlargest (by decide)
  · obtain ⟨s, hs⟩ := hwide.mpr (.inl (by decide))
    obtain ⟨hsize, hfrom, -⟩ := hmembers s hs
    exact ⟨s, hs, hsize, hfrom⟩

/-- **A sum above the largest number passes for that number, and so for one within the largest
window.** -/
theorem reaches_beyond_window :
    ∃ s, (dialect (Except QueryError) ⟨"catalog", "kind"⟩).compile { maxResultWindow := largest }
        { entity := "Person", skip := 1, limit := largest } = .ok s ∧
      s.statement.member? "from" = some (.int 1) ∧
      s.statement.member? "size" = some (.int 18446744073709551615) ∧
      ¬ Within largest 1 largest ∧ ¬ 1 + 18446744073709551615 ≤ largest.toNat :=
  ⟨_, rfl, rfl, rfl, by decide, by decide⟩

end PortableQuery.Search
