import Depot.Request
import Depot.Service.Reply

/-!
# Sessions — requests and the answers to them

A **`Session`** holds the answers that a service will still give, each a function of the request it
answers, and the requests sent so far. One request consumes one answer; when none is left, the
answer is a blank reply. A request that must not leave is neither logged nor answered.
-/

namespace Depot

/-- The answers still to come and the requests sent so far. -/
structure Session where
  script : List (Request → Response)
  sent : List Request

namespace Session

/-- The session before the first request. -/
def start (script : List (Request → Response)) : Session := ⟨script, []⟩

/-- Sends a request and takes the next answer. -/
def exchange (r : Request) (s : Session) : Response × Session :=
  match s.script with
  | [] => (.reply .blank, ⟨[], s.sent ++ [r]⟩)
  | answer :: rest => (answer r, ⟨rest, s.sent ++ [r]⟩)

/-- Sends a request, if it may leave, and reads the answer. -/
def send (r : Request) (s : Session) : Except Fault Reply × Session :=
  if r.isSendable then
    let (response, next) := s.exchange r
    (response.outcome r.action, next)
  else (.error .unreachable, s)

end Session

/-- A computation that may send requests and may come to nothing. -/
abbrev Run (α : Type) := ExceptT Error (StateM Session) α

namespace Run

variable {α : Type}

/-- The result of a computation that starts in a session, and the session it ends in. -/
def exec (x : Run α) (s : Session) : Except Error α × Session := StateT.run (ExceptT.run x) s

/-- A result that needs no request. -/
def ofExcept (x : Except Error α) : Run α := ExceptT.mk (pure x)

/-- Asks the table service and takes its reply. -/
def ask (r : Request) : Run Reply :=
  ExceptT.mk do
    let outcome ← modifyGet (Session.send r)
    pure (outcome.mapError .store)

end Run

end Depot
