import Depot.Service.Session

/-!
# Sessions as scripts — requests with the answers that they get

The requests that a computation sends are the ones by which its session grows (**`Session.advance`**),
and their answers are read off the script (**`Session.replay`**). Two computations one after the other
are run by `Run.exec_bind`, one request by `Run.exec_ask`, and a request that is built, sent and read
by **`Run.exec_asking`**.
-/

namespace Depot

namespace Session

/-- The answer that a script has for a request. -/
def answerTo (script : List (Request → Response)) (r : Request) : Response :=
  match script with
  | [] => .reply .blank
  | answer :: _ => answer r

/-- Requests with the answers that a script has for them, one after the other. -/
def replay (script : List (Request → Response)) : List Request → List (Request × Response)
  | [] => []
  | r :: rest => (r, answerTo script r) :: replay script.tail rest

theorem map_fst_replay (script : List (Request → Response)) (rs : List Request) :
    (replay script rs).map (·.1) = rs := by
  induction rs generalizing script with
  | nil => rfl
  | cons r rs ih => rw [replay, List.map_cons, ih]

theorem mem_of_mem_replay {script : List (Request → Response)} {rs : List Request}
    {x : Request × Response} (hx : x ∈ replay script rs) : x.1 ∈ rs := by
  have hmem := List.mem_map_of_mem (f := Prod.fst) hx
  rwa [map_fst_replay] at hmem

/-- The answers to later requests are read off what the earlier ones leave of the script. -/
theorem replay_append (script : List (Request → Response)) (rs rs' : List Request) :
    replay script (rs ++ rs') = replay script rs ++ replay (script.drop rs.length) rs' := by
  induction rs generalizing script with
  | nil => rfl
  | cons r rs ih =>
      rw [List.cons_append, replay, replay, ih, List.cons_append, List.length_cons,
        ← List.drop_one, List.drop_drop, Nat.add_comm 1]

/-- **Each request is answered in its turn.** -/
theorem getElem?_replay (script : List (Request → Response)) (rs : List Request) (k : Nat) :
    (replay script rs)[k]? = rs[k]?.map fun r => (r, answerTo (script.drop k) r) := by
  induction rs generalizing script k with
  | nil => rfl
  | cons r rs ih =>
      cases k with
      | zero => rfl
      | succ k =>
          rw [replay, List.getElem?_cons_succ, List.getElem?_cons_succ, ih, ← List.drop_one,
            List.drop_drop, Nat.add_comm 1]

/-- The session in which some more requests have been sent. -/
def advance (s : Session) (rs : List Request) : Session :=
  ⟨s.script.drop rs.length, s.sent ++ rs⟩

theorem advance_nil (s : Session) : s.advance [] = s := by
  rw [advance, List.append_nil]
  rfl

/-- Requests sent after others are sent behind them. -/
theorem advance_append (s : Session) (rs rs' : List Request) :
    (s.advance rs).advance rs' = s.advance (rs ++ rs') := by
  rw [advance, advance, advance, List.drop_drop, List.append_assoc, List.length_append]

/-- A request that can be sent gets the answer of the script, which is used up by it. -/
theorem send_eq {r : Request} (hr : r.isSendable = true) (s : Session) :
    s.send r = ((answerTo s.script r).outcome r.action, s.advance [r]) := by
  obtain ⟨script, sent⟩ := s
  rw [send, if_pos hr]
  cases script <;> rfl

end Session

namespace Run

variable {α β : Type}

/-- Two steps run one after the other, and the second one only if the first one succeeds. -/
theorem exec_bind (x : Run α) (f : α → Run β) (s : Session) :
    (x >>= f).exec s = match x.exec s with
      | (.ok a, next) => (f a).exec next
      | (.error e, next) => (.error e, next) := by
  have hbind : (x >>= f).exec s = ExceptT.bindCont f (x.exec s).1 (x.exec s).2 := rfl
  rw [hbind]
  cases x.exec s with
  | mk result next => cases result <;> rfl

theorem exec_ofExcept (x : Except Error α) (s : Session) : (ofExcept x).exec s = (x, s) := rfl

/-- What needs no request and comes to nothing ends the computation. -/
theorem exec_bind_of_error {x : Except Error α} {e : Error} (hx : x = .error e) (f : α → Run β)
    (s : Session) : (ofExcept x >>= f).exec s = (.error e, s) := by
  rw [exec_bind, exec_ofExcept, hx]

/-- The computation goes on with what needs no request. -/
theorem exec_bind_of_ok {x : Except Error α} {a : α} (hx : x = .ok a) (f : α → Run β)
    (s : Session) : (ofExcept x >>= f).exec s = (f a).exec s := by
  rw [exec_bind, exec_ofExcept, hx]

/-- A request that can be sent is sent, and a refusal is an error of the table service. -/
theorem exec_ask {r : Request} (hr : r.isSendable = true) (s : Session) :
    (ask r).exec s = (((Session.answerTo s.script r).outcome r.action).mapError Error.store,
      s.advance [r]) := by
  show ((s.send r).1.mapError Error.store, (s.send r).2) = _
  rw [Session.send_eq hr]

/-- A request that must not leave is not sent. -/
theorem exec_ask_of_not_sendable {r : Request} (hr : r.isSendable = false) (s : Session) :
    (ask r).exec s = (.error (.store .unreachable), s) := by
  show ((s.send r).1.mapError Error.store, (s.send r).2) = _
  rw [Session.send, hr]
  rfl

/-- Sends a request, if it can be built. -/
def sending (x : Except Error Request) : Run Reply := ofExcept x >>= ask

/-- Sends a request, if it can be built, and reads the reply. -/
def asking (x : Except Error Request) (read : Reply → Except Error α) : Run α :=
  sending x >>= fun reply => ofExcept (read reply)

/-- A request that is made of something built is sent when that is built. -/
theorem sending_map (x : Except Error β) (f : β → Request) :
    sending (x.map f) = ofExcept x >>= fun b => ask (f b) := by
  cases x <;> rfl

theorem ofExcept_bind_pure (x : Except Error β) (f : β → α) :
    (ofExcept x >>= fun b => pure (f b)) = ofExcept (x.map f) := by
  cases x <;> rfl

/-- **What becomes of a request**, in the order in which it can fail. -/
theorem exec_asking (x : Except Error Request) (read : Reply → Except Error α) (s : Session) :
    (asking x read).exec s = match x with
      | .error e => (.error e, s)
      | .ok r =>
        if r.isSendable then
          (((Session.answerTo s.script r).outcome r.action).mapError Error.store >>= read,
            s.advance [r])
        else (.error (.store .unreachable), s) := by
  cases x with
  | error e => exact exec_bind_of_error rfl _ s
  | ok r =>
      rw [asking, exec_bind, sending, exec_bind_of_ok rfl]
      by_cases hr : r.isSendable = true
      · rw [exec_ask hr]
        simp only [if_pos hr]
        cases ((Session.answerTo s.script r).outcome r.action).mapError Error.store <;> rfl
      · rw [exec_ask_of_not_sendable (Bool.not_eq_true _ ▸ hr)]
        simp only [if_neg hr]

end Run

end Depot
