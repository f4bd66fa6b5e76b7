import PortableQuery.Lowering.Dialect
import PortableQuery.Value

/-!
# Reading page by page

A pager owns a query and knows where its read stands. Every page is asked for by the same query with
the cursor of the page before, until a page comes without one; a failure leaves the pager as it is.
-/

namespace PortableQuery

/-- One page of a result. -/
structure Page where
  entities : List Entity
  /-- Where to continue; none if this is the last page. -/
  continuation : Option CursorToken
deriving Repr

/-- Where a read stands. -/
inductive PageState where
  | notStarted
  | hasMore (cursor : CursorToken)
  | exhausted
deriving DecidableEq, Repr

/-- A read, page by page. -/
structure Pager where
  query : Query
  state : PageState := .notStarted
  pages : Nat := 0
deriving Repr

namespace Pager

/-- There are no more pages. -/
def isExhausted (p : Pager) : Bool := p.state == .exhausted

/-- The query of the next page. -/
def nextQuery (p : Pager) : Option Query :=
  match p.state with
  | .notStarted => some p.query
  | .hasMore cursor => some (p.query.withCursor (some cursor))
  | .exhausted => none

/-- The pager after a page that gave this continuation. -/
def advance (p : Pager) (continuation : Option CursorToken) : Pager :=
  { p with
    pages := p.pages + 1
    state :=
      match continuation with
      | some cursor => .hasMore cursor
      | none => .exhausted }

/-- The pager of a read that is given up. -/
def exhaust (p : Pager) : Pager := { p with state := .exhausted }

/-- What a store answers to a statement. -/
abbrev Reply := Except QueryError Page

/-- One call for a page: its outcome, the statement that was sent if there was one, and the pager
behind the call. -/
structure Round (F N : Type) where
  outcome : Except QueryError (Option Page)
  sent : Option (Statement F N)
  pager : Pager

section Run

variable {m : Type → Type} [Monad m] {F N : Type}

/-- The pager behind a reply. -/
def afterReply (p : Pager) (sent : Statement F N) : Reply → Round F N
  | .ok page => ⟨.ok (some page), some sent, p.advance page.continuation⟩
  | .error e => ⟨.error e, some sent, p⟩

/-- Call for the next page: compile its query, and send the statement to a store. -/
def round (compile : Query → m (Except QueryError (Statement F N)))
    (execute : Statement F N → m Reply) (p : Pager) : m (Round F N) :=
  match p.nextQuery with
  | none => pure ⟨.ok none, none, p⟩
  | some q => do
    match ← compile q with
    | .error e => pure ⟨.error e, none, p⟩
    | .ok statement => do
      let reply ← execute statement
      pure (p.afterReply statement reply)

/-- The reply to a statement, and the script of those to come; a script that has run out fails. -/
def nextReply : List Reply → Reply × List Reply
  | [] => (.error (.connection "no page"), [])
  | r :: rs => (r, rs)

/-- Call for a page so many times; every statement that is sent takes the next reply. -/
def drain (compile : Query → m (Except QueryError (Statement F N))) :
    Nat → List Reply → Pager → m (List (Round F N))
  | 0, _, _ => pure []
  | rounds + 1, script, p => do
    let (reply, later) := nextReply script
    let r ← p.round compile fun _ => pure reply
    let rest ← drain compile rounds (if r.sent.isSome then later else script) r.pager
    pure (r :: rest)

end Run

end Pager

end PortableQuery
