import PortableQuery.Pager

set_option autoImplicit false

/-!
# Calls for pages

All that a pager remembers of the calls that are behind it are the pages that it has returned: they
say which query is due, and where the pager stands. So what one call does is said for a pager behind
some pages, and a run of calls is such calls one after the other.
-/

namespace PortableQuery.Pager

variable {F N : Type}

/-! ## The pager behind some pages -/

/-- The query that is due behind these pages: the query itself at first, then the same one with the
cursor that the last page has given, and none if it has given none. -/
def due (q : Query) (pages : List Page) : Option Query :=
  match pages.getLast? with
  | none => some q
  | some page => page.continuation.map fun t => { q with cursor := some t }

/-- The pager of a query behind these pages. -/
def behind (q : Query) (pages : List Page) : Pager where
  query := q
  state :=
    match pages.getLast?.map Page.continuation with
    | none => .notStarted
    | some (some t) => .hasMore t
    | some none => .exhausted
  pages := pages.length

section Behind

variable (q : Query) (pages : List Page)

theorem behind_nil : behind q [] = { query := q } := rfl

theorem nextQuery_behind : (behind q pages).nextQuery = due q pages := by
  unfold nextQuery behind due
  cases pages.getLast? with
  | none => rfl
  | some page =>
    obtain ⟨entities, continuation⟩ := page
    cases continuation <;> rfl

theorem advance_behind (page : Page) :
    (behind q pages).advance page.continuation = behind q (pages ++ [page]) := by
  obtain ⟨entities, continuation⟩ := page
  cases continuation <;> simp [behind, advance]

theorem due_concat (page : Page) :
    due q (pages ++ [page]) = page.continuation.map fun t => { q with cursor := some t } := by
  rw [due, List.getLast?_concat]

theorem exists_cursor_of_due {q' : Query} (h : due q pages = some q') :
    ∃ cursor, q' = { q with cursor := cursor } := by
  unfold due at h
  split at h
  · exact ⟨q.cursor, (Option.some.inj h).symm⟩
  · obtain ⟨t, -, rfl⟩ := Option.map_eq_some_iff.mp h
    exact ⟨some t, rfl⟩

end Behind

/-! ## One call -/

variable (compile : Query → Except QueryError (Statement F N))

/-- What a call does behind these pages, given the reply to the next statement. -/
inductive Call (q : Query) (pages : List Page) (reply : Reply) : Round F N → Prop
  /-- There are no more pages. -/
  | finished : due q pages = none → Call q pages reply ⟨.ok none, none, behind q pages⟩
  /-- The query that is due is not compiled; nothing is sent, and nothing changes. -/
  | refused {q' : Query} {e : QueryError} : due q pages = some q' → compile q' = .error e →
      Call q pages reply ⟨.error e, none, behind q pages⟩
  /-- The statement is sent and fails; nothing changes. -/
  | failed {q' : Query} {s : Statement F N} {e : QueryError} : due q pages = some q' →
      compile q' = .ok s → reply = .error e →
      Call q pages reply ⟨.error e, some s, behind q pages⟩
  /-- The statement is sent, and its page is returned. -/
  | returned {q' : Query} {s : Statement F N} {page : Page} : due q pages = some q' →
      compile q' = .ok s → reply = .ok page →
      Call q pages reply ⟨.ok (some page), some s, behind q (pages ++ [page])⟩

/-- One call for a page, with the reply to the statement if one is sent. -/
def call (reply : Reply) (p : Pager) : Round F N :=
  Id.run (p.round (m := Id) compile fun _ => reply)

section Call

variable {compile} {p : Pager} {q : Query} (reply : Reply)

theorem call_of_none (h : p.nextQuery = none) :
    call compile reply p = ⟨.ok none, none, p⟩ := by
  rw [call, round, h]
  rfl

theorem call_of_error {e : QueryError} (h : p.nextQuery = some q) (he : compile q = .error e) :
    call compile reply p = ⟨.error e, none, p⟩ := by
  rw [call, round, h]
  simp only [he, Id.run, bind, pure]

theorem call_of_ok {s : Statement F N} (h : p.nextQuery = some q) (hs : compile q = .ok s) :
    call compile reply p = p.afterReply s reply := by
  rw [call, round, h]
  simp only [hs, Id.run, bind, pure]

end Call

/-- **A call finds no more pages, is refused, fails or returns a page.** -/
theorem call_behind (q : Query) (pages : List Page) (reply : Reply) :
    Call compile q pages reply (call compile reply (behind q pages)) := by
  have hnext := nextQuery_behind q pages
  cases hdue : due q pages with
  | none =>
    rw [call_of_none reply (hnext.trans hdue)]
    exact .finished hdue
  | some q' =>
    cases hcompile : compile q' with
    | error e =>
      rw [call_of_error reply (hnext.trans hdue) hcompile]
      exact .refused hdue hcompile
    | ok s =>
      rw [call_of_ok reply (hnext.trans hdue) hcompile]
      cases reply with
      | error e => exact .failed hdue hcompile rfl
      | ok page =>
        rw [afterReply, advance_behind]
        exact .returned hdue hcompile rfl

/-! ## Runs of calls -/

/-- The page that a call has returned. -/
def Round.page? (r : Round F N) : Option Page := r.outcome.toOption.join

/-- The pages that calls have returned. -/
def pagesOf (rounds : List (Round F N)) : List Page := rounds.filterMap Round.page?

/-- The statements that calls have sent. -/
def sentBy (rounds : List (Round F N)) : List (Statement F N) := rounds.filterMap Round.sent

/-- The reply to a statement behind so many others; there is none behind the end of a script. -/
def replyAt (script : List Reply) (i : Nat) : Reply :=
  script[i]?.getD (.error (.connection "no page"))

/-- So many calls for a page, every statement that is sent taking the next reply of a script. -/
def calls (n : Nat) (script : List Reply) (p : Pager) : List (Round F N) :=
  Id.run (drain (m := Id) compile n script p)

@[simp] theorem pagesOf_append (past rounds : List (Round F N)) :
    pagesOf (past ++ rounds) = pagesOf past ++ pagesOf rounds := List.filterMap_append

theorem pagesOf_cons (r : Round F N) (rounds : List (Round F N)) :
    pagesOf (r :: rounds) = r.page?.toList ++ pagesOf rounds := by
  rw [pagesOf, List.filterMap_cons]
  cases r.page? <;> rfl

theorem pagesOf_concat {past : List (Round F N)} {r : Round F N} {page : Page}
    (hr : r.outcome = .ok (some page)) : pagesOf (past ++ [r]) = pagesOf past ++ [page] := by
  rw [pagesOf_append, pagesOf_cons, Round.page?, hr]
  rfl

theorem sentBy_cons (r : Round F N) (rounds : List (Round F N)) :
    sentBy (r :: rounds) = r.sent.toList ++ sentBy rounds := by
  rw [sentBy, List.filterMap_cons]
  cases r.sent <;> rfl

theorem Call.pager_eq {q : Query} {pages : List Page} {reply : Reply} {r : Round F N}
    (h : Call compile q pages reply r) : r.pager = behind q (pages ++ r.page?.toList) := by
  cases h with
  | returned => rfl
  | finished | refused | failed => exact congrArg (behind q) (List.append_nil pages).symm

theorem Call.sent_eq {q : Query} {pages : List Page} {reply : Reply} {r : Round F N}
    (h : Call compile q pages reply r) :
    r.sent = (due q pages).bind fun q' => (compile q').toOption := by
  cases h with
  | finished hdue => rw [hdue, Option.bind_none]
  | refused hdue hcompile | failed hdue hcompile | returned hdue hcompile =>
    rw [hdue, Option.bind_some, hcompile]
    rfl

/-- The first of several calls takes the first reply if it sends a statement. -/
theorem calls_succ (n : Nat) (script : List Reply) (p : Pager) :
    calls compile (n + 1) script p =
      call compile (replyAt script 0) p ::
        calls compile n (script.drop (call compile (replyAt script 0) p).sent.toList.length)
          (call compile (replyAt script 0) p).pager := by
  have hreply : (nextReply script).1 = replyAt script 0 := by cases script <;> rfl
  have hlater : (nextReply script).2 = script.drop 1 := by cases script <;> rfl
  have hdrop : (if (call compile (replyAt script 0) p).sent.isSome then script.drop 1 else script) =
      script.drop (call compile (replyAt script 0) p).sent.toList.length := by
    cases (call compile (replyAt script 0) p).sent <;> rfl
  rw [← hdrop, ← hlater, ← hreply]
  rfl

@[simp] theorem length_calls (n : Nat) (script : List Reply) (p : Pager) :
    (calls compile n script p).length = n := by
  induction n generalizing script p with
  | zero => rfl
  | succ n ih => rw [calls_succ, List.length_cons, ih]

theorem replyAt_drop (script : List Reply) (k i : Nat) :
    replyAt (script.drop k) i = replyAt script (k + i) := by
  rw [replyAt, List.getElem?_drop, replyAt]

variable {compile}

/-- **A run goes on from any of its calls as a run behind the pages so far, with the replies that
are left.** -/
theorem eq_calls_of_append {n : Nat} {script : List Reply} {q : Query} {pages : List Page}
    {past future : List (Round F N)}
    (h : calls compile n script (behind q pages) = past ++ future) :
    future = calls compile future.length (script.drop (sentBy past).length)
      (behind q (pages ++ pagesOf past)) := by
  induction past generalizing n script pages with
  | nil =>
    have hlength := congrArg List.length h
    rw [length_calls] at hlength
    simp only [List.nil_append] at h hlength
    simpa [pagesOf, sentBy, ← hlength] using h.symm
  | cons r past ih =>
    cases n with
    | zero => cases h
    | succ n =>
      rw [calls_succ, List.cons_append] at h
      obtain ⟨hr, hrest⟩ := List.cons.inj h
      have hcall := call_behind compile q pages (replyAt script 0)
      rw [hr] at hrest hcall
      rw [hcall.pager_eq] at hrest
      have hfuture := ih hrest
      rwa [List.append_assoc, ← pagesOf_cons, List.drop_drop, ← List.length_append, ← sentBy_cons]
        at hfuture

/-- **Every call of a run is one behind the pages so far, with the reply to the next statement.** -/
theorem call_of_append {n : Nat} {script : List Reply} {q : Query} {pages : List Page}
    {past future : List (Round F N)} {r : Round F N}
    (h : calls compile n script (behind q pages) = past ++ r :: future) :
    Call compile q (pages ++ pagesOf past) (replyAt script (sentBy past).length) r := by
  have hrest := eq_calls_of_append h
  rw [List.length_cons, calls_succ] at hrest
  have hcall := call_behind compile q (pages ++ pagesOf past) (replyAt script (sentBy past).length)
  rw [replyAt_drop, Nat.add_zero] at hrest
  rwa [← (List.cons.inj hrest).1] at hcall

/-- Where the pager of a query stands behind some calls. -/
def after (q : Query) (past : List (Round F N)) : Pager :=
  (past.getLast?.map Round.pager).getD { query := q }

/-- **Behind some calls, the pager stands behind their pages.** -/
theorem after_eq_behind {n : Nat} {script : List Reply} {q : Query} {past future : List (Round F N)}
    (h : calls compile n script { query := q } = past ++ future) :
    after q past = behind q (pagesOf past) := by
  rcases List.eq_nil_or_concat past with rfl | ⟨past, r, rfl⟩
  · rfl
  · rw [List.concat_eq_append, List.append_assoc, List.singleton_append, ← behind_nil] at h
    have hpages : pagesOf (past ++ [r]) = pagesOf past ++ r.page?.toList := by
      rw [pagesOf_append, pagesOf_cons]
      exact congrArg (pagesOf past ++ ·) (List.append_nil _)
    rw [after, List.concat_eq_append, List.getLast?_concat, Option.map_some, Option.getD_some,
      (call_of_append h).pager_eq, hpages, List.nil_append]

end PortableQuery.Pager
