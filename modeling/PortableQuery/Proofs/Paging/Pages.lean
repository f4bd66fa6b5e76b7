import PortableQuery.Cql.Select
import PortableQuery.Proofs.Lowering.Refusal
import PortableQuery.Proofs.Paging.Calls
import PortableQuery.Sql.Select

set_option autoImplicit false

/-!
# The pages of a read

Whatever the order of pages and failures, a read returns the pages that a store replies with, from
the first one on and each of them once, up to the one behind which there are no more. Where queries
compile wherever they continue, calling often enough returns all of these.
-/

namespace PortableQuery

namespace Pager

variable {F N : Type} {compile : Query → Except QueryError (Statement F N)} {q q' : Query}
  {pages : List Page}

/-! ## Pages of a script -/

/-- The pages among the replies. -/
def successes (script : List Reply) : List Page := script.filterMap Except.toOption

/-- The pages up to the first one that does not continue. -/
def untilLast : List Page → List Page
  | [] => []
  | page :: pages => if page.continuation.isNone then [page] else page :: untilLast pages

@[simp] theorem successes_cons (page : Page) (later : List Reply) :
    successes (.ok page :: later) = page :: successes later := rfl

theorem untilLast_cons_of_last {page : Page} (h : page.continuation = none) (pages : List Page) :
    untilLast (page :: pages) = [page] := by
  rw [untilLast, h]
  rfl

theorem untilLast_cons_of_continues {page : Page} {t : CursorToken}
    (h : page.continuation = some t) (pages : List Page) :
    untilLast (page :: pages) = page :: untilLast pages := by
  rw [untilLast, h]
  rfl

theorem successes_drop_of_error {script : List Reply} {e : QueryError}
    (h : replyAt script 0 = .error e) : successes (script.drop 1) = successes script := by
  cases script with
  | nil => rfl
  | cons reply later =>
    obtain rfl : reply = .error e := h
    rfl

theorem exists_of_replyAt_eq_ok {script : List Reply} {page : Page}
    (h : replyAt script 0 = .ok page) : ∃ later, script = .ok page :: later := by
  cases script with
  | nil => cases h
  | cons reply later =>
    obtain rfl : reply = .ok page := h
    exact ⟨later, rfl⟩

/-! ## Pages of a run -/

theorem calls_of_due_eq_none (hdue : due q pages = none) (n : Nat) (script : List Reply) :
    calls compile n script (behind q pages) =
      List.replicate n ⟨.ok none, none, behind q pages⟩ := by
  induction n generalizing script with
  | zero => rfl
  | succ n ih =>
    have hcall := call_behind compile q pages (replyAt script 0)
    rw [calls_succ, List.replicate_succ]
    generalize call compile (replyAt script 0) (behind q pages) = r at hcall ⊢
    cases hcall with
    | finished => rw [ih]
    | refused h | failed h | returned h =>
      rw [hdue] at h
      cases h

/-- Behind a page that does not continue every call finds the read finished, and sends nothing. -/
theorem forall_of_last {n : Nat} {script : List Reply} {past future : List (Round F N)}
    {r : Round F N} {page : Page}
    (h : calls compile n script (behind q pages) = past ++ r :: future)
    (hr : r.outcome = .ok (some page)) (hlast : page.continuation = none) :
    ∀ x ∈ future, x.outcome = .ok none ∧ x.sent = none := by
  rw [List.append_cons] at h
  have hfuture := eq_calls_of_append h
  have hdue : due q (pages ++ pagesOf (past ++ [r])) = none := by
    rw [pagesOf_concat hr, ← List.append_assoc, due_concat, hlast]
    rfl
  rw [calls_of_due_eq_none hdue] at hfuture
  intro x hx
  rw [hfuture] at hx
  obtain rfl := List.eq_of_mem_replicate hx
  exact ⟨rfl, rfl⟩

variable (compile) in
/-- The pages of several calls: the first of these is refused, or it fails with the first reply, or
it returns that. -/
theorem pagesOf_calls_succ (hdue : due q pages = some q') (n : Nat) (script : List Reply) :
    (∃ e, compile q' = .error e ∧ pagesOf (calls compile (n + 1) script (behind q pages)) =
      pagesOf (calls compile n script (behind q pages))) ∨
    (∃ e, replyAt script 0 = .error e ∧ pagesOf (calls compile (n + 1) script (behind q pages)) =
      pagesOf (calls compile n (script.drop 1) (behind q pages))) ∨
    ∃ page later, script = .ok page :: later ∧
      pagesOf (calls compile (n + 1) script (behind q pages)) =
        page :: pagesOf (calls compile n later (behind q (pages ++ [page]))) := by
  have hcall := call_behind compile q pages (replyAt script 0)
  rw [calls_succ, pagesOf_cons]
  generalize call compile (replyAt script 0) (behind q pages) = r at hcall ⊢
  cases hcall with
  | finished h =>
    rw [hdue] at h
    cases h
  | refused h hcompile =>
    rw [hdue] at h
    obtain rfl := Option.some.inj h
    exact .inl ⟨_, hcompile, rfl⟩
  | failed _ _ hreply => exact .inr (.inl ⟨_, hreply, rfl⟩)
  | @returned _ _ page _ _ hreply =>
    obtain ⟨later, rfl⟩ := exists_of_replyAt_eq_ok hreply
    exact .inr (.inr ⟨page, later, rfl, rfl⟩)

theorem pagesOf_calls_of_due_eq_none (hdue : due q pages = none) (n : Nat) (script : List Reply) :
    pagesOf (calls compile n script (behind q pages)) = [] := by
  rw [calls_of_due_eq_none hdue, pagesOf, List.filterMap_eq_nil_iff]
  intro r hr
  obtain rfl := List.eq_of_mem_replicate hr
  rfl

/-- **A run returns the pages of a script in their order, from the first one on and each once, and
none behind the last one.** -/
theorem pagesOf_calls_prefix (hdue : due q pages = some q') (n : Nat) (script : List Reply) :
    pagesOf (calls compile n script (behind q pages)) <+: untilLast (successes script) := by
  induction n generalizing script pages q' with
  | zero => exact List.nil_prefix
  | succ n ih =>
    obtain ⟨e, -, h⟩ | ⟨e, he, h⟩ | ⟨page, later, rfl, h⟩ :=
      pagesOf_calls_succ compile hdue n script
    · rw [h]
      exact ih hdue script
    · rw [h, ← successes_drop_of_error he]
      exact ih hdue _
    · have hconcat := due_concat q pages page
      rw [h, successes_cons]
      cases ht : page.continuation with
      | none =>
        rw [ht] at hconcat
        simp only [untilLast_cons_of_last ht, pagesOf_calls_of_due_eq_none hconcat,
          List.prefix_rfl]
      | some t =>
        rw [ht] at hconcat
        rw [untilLast_cons_of_continues ht, List.prefix_cons_inj]
        exact ih hconcat later

/-- **If no query that is due is refused, as many calls as there are replies return all pages up to
the last one.** -/
theorem pagesOf_calls_eq (hcompile : ∀ pages q', due q pages = some q' → ∃ s, compile q' = .ok s)
    (hdue : due q pages = some q') {n : Nat} {script : List Reply} (hn : script.length ≤ n) :
    pagesOf (calls compile n script (behind q pages)) = untilLast (successes script) := by
  induction n generalizing script pages q' with
  | zero =>
    obtain rfl := List.length_eq_zero_iff.mp (Nat.le_zero.mp hn)
    rfl
  | succ n ih =>
    obtain ⟨e, he, -⟩ | ⟨e, he, h⟩ | ⟨page, later, rfl, h⟩ :=
      pagesOf_calls_succ compile hdue n script
    · obtain ⟨s, hs⟩ := hcompile pages q' hdue
      rw [hs] at he
      cases he
    · have hlater : (script.drop 1).length ≤ n := by
        rw [List.length_drop]
        omega
      rw [h, ← successes_drop_of_error he]
      exact ih hdue hlater
    · have hconcat := due_concat q pages page
      have hlater : later.length ≤ n := Nat.le_of_succ_le_succ hn
      rw [h, successes_cons]
      cases ht : page.continuation with
      | none =>
        rw [ht] at hconcat
        rw [untilLast_cons_of_last ht, pagesOf_calls_of_due_eq_none hconcat]
      | some t =>
        rw [ht] at hconcat
        rw [untilLast_cons_of_continues ht, ih hconcat hlater]

end Pager

/-! ## Stores that page by cursor -/

namespace Cql

variable {k : Keyspace} {schema : Option (SchemaLookup (Except QueryError))}

theorem assemble_cursor (q : Query) (cursor : Option CursorToken) (l : Lowered String Native) :
    assemble k { q with cursor := cursor } l =
      (assemble k q l).map ({ · with pagingState := cursor }) := by
  unfold assemble
  dsimp only
  cases orderClause k q.entity q.sorts <;> rfl

theorem compile_cursor (config : CompilerConfig) (q : Query) (cursor : Option CursorToken) :
    (dialect (m := Except QueryError) k schema).compile config { q with cursor := cursor } =
      ((dialect (m := Except QueryError) k schema).compile config q).map
        ({ · with pagingState := cursor }) :=
  Dialect.compile_eq_map _ rfl rfl rfl (assemble_cursor q cursor)

end Cql

/-! ## Whole reads -/

open Pager in
/-- **Every call of a read finds it finished, is refused, fails or returns a page, and the pager
stands behind the pages so far. A statement is sent if a query is due and compiles, and it is what
that query is compiled to. The pages come in the order of the script, from the first one on and
each once, up to the first one that does not continue; behind that nothing is sent. Where the store
pages by cursor and the query compiles, as many calls as there are replies return all of them.** -/
theorem pages_in_order (config : CompilerConfig) (q : Query) (script : List Reply) (n : Nat) :
    (∀ (F N : Type) (d : Dialect (Except QueryError) F N) (rounds : List (Round F N)),
      rounds = calls (d.compile config) n script { query := q } →
      rounds.length = n ∧
      (∀ past future, rounds = past ++ future → after q past = behind q (pagesOf past)) ∧
      (∀ past r future, rounds = past ++ r :: future →
        Call (d.compile config) q (pagesOf past) (replyAt script (sentBy past).length) r ∧
        r.sent = (due q (pagesOf past)).bind fun q' => (d.compile config q').toOption) ∧
      (∀ (past : List (Round F N)) (r : Round F N) (future : List (Round F N)) (page : Page),
        rounds = past ++ r :: future → r.outcome = .ok (some page) → page.continuation = none →
        ∀ x ∈ future, x.outcome = .ok none ∧ x.sent = none) ∧
      pagesOf rounds <+: untilLast (successes script)) ∧
    ∀ k schema s, (Cql.dialect (m := Except QueryError) k schema).compile config q = .ok s →
      script.length ≤ n →
      pagesOf (calls ((Cql.dialect (m := Except QueryError) k schema).compile config) n script
        { query := q }) = untilLast (successes script) := by
  refine ⟨?_, fun k schema s hs hn => ?_⟩
  · rintro F N d _ rfl
    have hstart : due q [] = some q := rfl
    refine ⟨length_calls .., fun past future h => after_eq_behind h, fun past r future h => ?_,
      fun past r future page h hpage hlast => ?_, pagesOf_calls_prefix hstart n script⟩
    · rw [← behind_nil] at h
      have hcall := call_of_append h
      exact ⟨hcall, hcall.sent_eq⟩
    · rw [← behind_nil] at h
      exact forall_of_last h hpage hlast
  · have hstart : due q [] = some q := rfl
    refine pagesOf_calls_eq (fun pages q' hdue => ?_) hstart hn
    obtain ⟨cursor, rfl⟩ := exists_cursor_of_due q pages hdue
    rw [Cql.compile_cursor, hs]
    exact ⟨_, rfl⟩

/-- A page that continues, a failure, an empty page that continues, a last page and another one. -/
def interruptedScript : List Pager.Reply :=
  [.ok ⟨[⟨"Person", []⟩], some ⟨[1]⟩⟩, .error (.connection "reset"), .ok ⟨[], some ⟨[2]⟩⟩,
    .ok ⟨[⟨"Person", []⟩], none⟩, .ok ⟨[], none⟩]

open Pager in
/-- CQL reads on behind a failure, up to the last page; SQL refuses to continue at a cursor. -/
theorem pages_in_order_interrupted :
    (∃ s, (Cql.dialect (m := Except QueryError) ⟨"k", [], false⟩ none).compile {}
        { entity := "Person" } = .ok s ∧ interruptedScript.length ≤ 5 ∧
      pagesOf (calls ((Cql.dialect (m := Except QueryError) ⟨"k", [], false⟩ none).compile {}) 5
        interruptedScript { query := { entity := "Person" } }) =
          untilLast (successes interruptedScript)) ∧
    ∃ rounds past r, rounds = calls ((Sql.dialect (Except QueryError) none).compile {}) 2
        interruptedScript { query := { entity := "Person" } } ∧ rounds = past ++ [r] ∧
      Call ((Sql.dialect (Except QueryError) none).compile {}) { entity := "Person" }
        (pagesOf past) (replyAt interruptedScript (sentBy past).length) r ∧
      r.outcome = .error (.unsupported "sql" "cursor") := by
  refine ⟨⟨_, rfl, by decide, ?_⟩, _, [_], _, rfl, rfl, ?_, rfl⟩
  · exact (pages_in_order {} { entity := "Person" } interruptedScript 5).2 _ _ _ rfl (by decide)
  · exact (((pages_in_order {} { entity := "Person" } interruptedScript 2).1 _ _
      (Sql.dialect (Except QueryError) none) _ rfl).2.2.1 _ _ [] rfl).1

end PortableQuery
