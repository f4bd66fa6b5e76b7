import PortableQuery.Cql.Select
import PortableQuery.Lowering.Compile
import PortableQuery.Proofs.Cursor
import PortableQuery.Proofs.Paging.Calls

set_option autoImplicit false

/-!
# Reads that are resumed

A pager that has returned a page goes on with its query where that page continues, and so does a new
pager of the query with the cursor set there. The two agree from then on in all that can be seen of
their calls, also if the cursor has been a text in between.
-/

namespace PortableQuery

namespace Pager

variable {F N : Type} (compile : Query → Except QueryError (Statement F N)) {p p' : Pager}

/-- What can be seen of a call: its outcome, and the statement that was sent. -/
def Round.seen (r : Round F N) : Except QueryError (Option Page) × Option (Statement F N) :=
  (r.outcome, r.sent)

/-- The pagers ask for the same next page, and will do so behind any page. -/
structure Agree (p p' : Pager) : Prop where
  nextQuery_eq : p.nextQuery = p'.nextQuery
  withCursor_eq (cursor : Option CursorToken) :
    p.query.withCursor cursor = p'.query.withCursor cursor

theorem Agree.advance (h : p.Agree p') (continuation : Option CursorToken) :
    (p.advance continuation).Agree (p'.advance continuation) := by
  refine ⟨?_, h.withCursor_eq⟩
  cases continuation with
  | none => rfl
  | some t => exact congrArg some (h.withCursor_eq (some t))

/-- **Pagers that agree make calls that look the same, and agree behind them.** -/
theorem Agree.call (h : p.Agree p') (reply : Reply) :
    (call compile reply p).seen = (call compile reply p').seen ∧
      (call compile reply p).pager.Agree (call compile reply p').pager := by
  cases hnext : p.nextQuery with
  | none =>
    have hnext' := h.nextQuery_eq.symm.trans hnext
    rw [call_of_none reply hnext, call_of_none reply hnext']
    exact ⟨rfl, h⟩
  | some q =>
    have hnext' := h.nextQuery_eq.symm.trans hnext
    cases hcompile : compile q with
    | error e =>
      rw [call_of_error reply hnext hcompile, call_of_error reply hnext' hcompile]
      exact ⟨rfl, h⟩
    | ok s =>
      rw [call_of_ok reply hnext hcompile, call_of_ok reply hnext' hcompile]
      cases reply with
      | error e => exact ⟨rfl, h⟩
      | ok page => exact ⟨rfl, h.advance page.continuation⟩

/-- **All their calls look the same.** -/
theorem Agree.seen_calls (h : p.Agree p') (n : Nat) (script : List Reply) :
    (calls compile n script p).map Round.seen = (calls compile n script p').map Round.seen := by
  induction n generalizing script p p' with
  | zero => rfl
  | succ n ih =>
    obtain ⟨hseen, hagree⟩ := h.call compile (replyAt script 0)
    have hsent : (Pager.call compile (replyAt script 0) p).sent =
        (Pager.call compile (replyAt script 0) p').sent := congrArg Prod.snd hseen
    rw [calls_succ, calls_succ, List.map_cons, List.map_cons, hseen, hsent, ih hagree]

/-- The pager behind a page that continues agrees with one of the query with that as its cursor. -/
theorem agree_withCursor (q : Query) (pages : List Page) {page : Page} {t : CursorToken}
    (ht : page.continuation = some t) :
    (behind q (pages ++ [page])).Agree { query := q.withCursor (some t) } := by
  refine ⟨?_, fun _ => rfl⟩
  rw [nextQuery_behind, due_concat, ht]
  rfl

end Pager

open Pager in
/-- **A read that is resumed from the text of a continuation is the read continued.** Behind a page
whose continuation has at least one byte, the text of that is read as a token, and the calls of a
new pager of the query with this token as its cursor have the outcomes, and send the statements,
that the remaining calls of the read have and send. -/
theorem resumes_from_text {F N : Type} (d : Dialect (Except QueryError) F N)
    (config : CompilerConfig) (q : Query) (script : List Reply) (n : Nat)
    {past future : List (Round F N)} {r : Round F N} {page : Page} {t : CursorToken}
    (h : calls (d.compile config) n script { query := q } = past ++ r :: future)
    (hpage : r.outcome = .ok (some page)) (ht : page.continuation = some t)
    (hbytes : t.bytes ≠ []) :
    ∃ t', CursorToken.read t.text = .ok t' ∧
      (calls (d.compile config) future.length (script.drop (sentBy (past ++ [r])).length)
        { query := q.withCursor (some t') }).map Round.seen = future.map Round.seen := by
  refine ⟨t, CursorToken.read_text hbytes, ?_⟩
  rw [List.append_cons, ← behind_nil] at h
  have hfuture := eq_calls_of_append h
  rw [pagesOf_concat hpage, List.nil_append] at hfuture
  have hseen := (agree_withCursor q (pagesOf past) ht).seen_calls
    (d.compile config) future.length (script.drop (sentBy (past ++ [r])).length)
  rw [← hfuture] at hseen
  exact hseen.symm

/-- A page that continues, an empty one that continues, a failure and a last page. -/
def resumedScript : List Pager.Reply :=
  [.ok ⟨[⟨"Person", []⟩], some ⟨[0, 255]⟩⟩, .ok ⟨[], some ⟨[7]⟩⟩, .error (.connection "reset"),
    .ok ⟨[⟨"Person", []⟩], none⟩]

open Pager in
theorem resumes_from_text_interrupted :
    ∃ past r future page t,
      calls ((Cql.dialect (m := Except QueryError) ⟨"k", [], false⟩ none).compile {}) 5
        resumedScript { query := { entity := "Person" } } = past ++ r :: future ∧
      r.outcome = .ok (some page) ∧ page.continuation = some t ∧ t.bytes ≠ [] ∧
      ∃ t', CursorToken.read t.text = .ok t' ∧
        (calls ((Cql.dialect (m := Except QueryError) ⟨"k", [], false⟩ none).compile {})
          future.length (resumedScript.drop (sentBy (past ++ [r])).length)
          { query := Query.withCursor { entity := "Person" } (some t') }).map Round.seen =
            future.map Round.seen :=
  ⟨[], _, _, _, _, rfl, rfl, rfl, List.cons_ne_nil _ _,
    resumes_from_text (Cql.dialect (m := Except QueryError) ⟨"k", [], false⟩ none) {}
      { entity := "Person" } resumedScript 5 rfl rfl rfl (List.cons_ne_nil _ _)⟩

open Pager in
/-- A store may hand out a continuation without bytes, but nothing is read from its text. -/
theorem not_resumes_from_empty_text :
    ¬ ∀ (q : Query) (script : List Reply) (n : Nat) (past : List (Round String Cql.Native))
        (r : Round String Cql.Native) (future : List (Round String Cql.Native)) (page : Page)
        (t : CursorToken),
      calls ((Cql.dialect (m := Except QueryError) ⟨"k", [], false⟩ none).compile {}) n script
        { query := q } = past ++ r :: future →
      r.outcome = .ok (some page) → page.continuation = some t →
      ∃ t', CursorToken.read t.text = .ok t' := by
  intro h
  obtain ⟨t', ht'⟩ := h { entity := "Person" } [.ok ⟨[], some ⟨[]⟩⟩] 1 [] _ [] _ _ rfl rfl rfl
  rw [CursorToken.read_text_nil] at ht'
  cases ht'

end PortableQuery
