import Mathlib.Algebra.Order.Floor.Div
import Mathlib.Data.List.Forall2
import Depot.Proofs.Json.Compact
import Depot.Proofs.Json.Spelling
import Depot.Proofs.Queue.Batches

/-!
# Pieces — batches are cut without loss

A list is cut into as many pieces as are needed (`length_pieces`), of which only the last one may be
shorter than the others (`length_of_mem_dropLast_pieces`), and put end to end the pieces are the list
again. The facts about the pieces follow the recursion that cuts them.

The main result, **`cut_without_loss`**, is that what is pushed or deleted is **`SentInBatches`**, once
the URL of its queue is known, that every entry has the content of its message (**`EntryOf`**), and that
no two entries of a push have one id. Nothing at all is sent for an empty list.
-/

namespace Depot

namespace Queue

open QueueRun

/-! ## Pieces -/

section

variable {α : Type} {n : Nat} {l : List α}

/-- One piece takes n + 1 elements, or all that there are. -/
theorem ceilDiv_succ (k n : Nat) : (k + 1) ⌈/⌉ (n + 1) = (k - n) ⌈/⌉ (n + 1) + 1 := by
  have hshift : k + 1 + (n + 1) - 1 = k + (n + 1) := by omega
  rw [Nat.ceilDiv_eq_add_pred_div, Nat.ceilDiv_eq_add_pred_div, hshift,
    Nat.add_div_right _ n.succ_pos, ← Nat.add_assoc, Nat.add_sub_cancel]
  rcases Nat.lt_or_ge k n with hlt | hge
  · have hnone : k - n + n = n := by omega
    rw [hnone, Nat.div_eq_of_lt n.lt_succ_self, Nat.div_eq_of_lt (Nat.lt_succ_of_lt hlt)]
  · rw [Nat.sub_add_cancel hge]

/-- A list is cut into as many pieces as are needed. -/
theorem length_pieces (n : Nat) (l : List α) : (pieces n l).length = l.length ⌈/⌉ (n + 1) := by
  induction l using pieces.induct n with
  | case1 => rw [pieces, List.length_nil, List.length_nil, zero_ceilDiv]
  | case2 a rest ih =>
      rw [pieces, List.length_cons, List.length_cons, ih, List.length_drop, ceilDiv_succ]

/-- A piece is neither empty nor too long. -/
theorem length_of_mem_pieces : ∀ p ∈ pieces n l, 1 ≤ p.length ∧ p.length ≤ n + 1 := by
  induction l using pieces.induct n with
  | case1 =>
      intro p hp
      rw [pieces] at hp
      cases hp
  | case2 a rest ih =>
      intro p hp
      rw [pieces] at hp
      rcases List.mem_cons.mp hp with rfl | hp
      · rw [List.length_cons, List.length_take]
        omega
      · exact ih p hp

/-- Every piece but the last one is full. -/
theorem length_of_mem_dropLast_pieces : ∀ p ∈ (pieces n l).dropLast, p.length = n + 1 := by
  induction l using pieces.induct n with
  | case1 =>
      intro p hp
      rw [pieces] at hp
      cases hp
  | case2 a rest ih =>
      intro p hp
      rw [pieces] at hp
      -- A piece that is not the last one has more of the list behind it.
      cases hrest : pieces n (rest.drop n) with
      | nil =>
          rw [hrest] at hp
          cases hp
      | cons next others =>
          rw [hrest, List.dropLast_cons_cons, ← hrest] at hp
          rcases List.mem_cons.mp hp with rfl | hp
          · have hne : rest.drop n ≠ [] := by
              intro hnil
              rw [hnil, pieces] at hrest
              cases hrest
            have hlt : n < rest.length := by
              rw [Ne, List.drop_eq_nil_iff] at hne
              omega
            rw [List.length_cons, List.length_take, Nat.min_eq_left (Nat.le_of_lt hlt)]
          · exact ih p hp

end

/-! ## Entries -/

/-- An entry with the content of a message. -/
structure EntryOf (m : Message) (e : PushEntry) : Prop where
  /-- A text is sent as it is, and a document as its text. -/
  body : e.body = match m.body with
    | .text s => s
    | .json j => j.render
  /-- The text of a document spells the document. -/
  spelled : ∀ j, m.body = .json j → Json.Spells e.body.toList j []
  /-- It is compact: no blank in it stands outside a literal. -/
  compact : ∀ j, m.body = .json j → Json.Compact e.body.toList
  delaySeconds : e.delivery.delaySeconds = m.delivery.delaySeconds
  deduplicationId : e.delivery.deduplicationId = m.delivery.deduplicationId
  groupId : e.delivery.groupId = m.delivery.groupId

/-- The entry of a message has its content, whatever its id is. -/
theorem entryOf_entry (m : Message) (id : String) : EntryOf m (m.entry id) := by
  obtain ⟨body, delivery⟩ := m
  cases body with
  | text s => exact ⟨rfl, nofun, nofun, rfl, rfl, rfl⟩
  | json j =>
      have hspelled : ∀ j', MessageBody.json j = .json j' → Json.Spells j.render.toList j' [] := by
        rintro _ ⟨⟩
        exact j.spells_render
      exact ⟨rfl, hspelled, fun _ _ => j.compact_render, rfl, rfl, rfl⟩

section

variable (ids : Nat → String)

/-- The first message takes the next id, and the others go on behind it. -/
theorem entriesFrom_cons (taken : Nat) (m : Message) (rest : List Message) :
    entriesFrom ids taken (m :: rest)
      = m.entry (ids taken) :: entriesFrom ids (taken + 1) rest := by
  rw [entriesFrom, List.mapIdx_cons, entriesFrom]
  simp only [Nat.add_zero, Nat.add_assoc, Nat.add_comm 1]

/-- The entries have the contents of the messages, in order. -/
theorem forall₂_entriesFrom (taken : Nat) (messages : List Message) :
    List.Forall₂ EntryOf messages (entriesFrom ids taken messages) := by
  induction messages generalizing taken with
  | nil => exact .nil
  | cons m rest ih =>
      rw [entriesFrom_cons]
      exact .cons (entryOf_entry m _) (ih _)

/-- The entries take as many ids as there are messages, from the first one that is not taken on. -/
theorem ids_entriesFrom (taken : Nat) (messages : List Message) :
    (entriesFrom ids taken messages).map (·.id) = (List.range' taken messages.length).map ids := by
  induction messages generalizing taken with
  | nil => rfl
  | cons m rest ih =>
      rw [entriesFrom_cons, List.map_cons, ih, List.length_cons, List.range'_succ, List.map_cons]
      rfl

/-- **A supply that never repeats an id** gives different ones to the entries. -/
theorem nodup_ids_entriesFrom {ids : Nat → String} (hids : Function.Injective ids) (taken : Nat)
    (messages : List Message) : ((entriesFrom ids taken messages).map (·.id)).Nodup := by
  rw [ids_entriesFrom]
  exact (List.nodup_range' _).map hids

end

/-- Numbered ids do not repeat. -/
theorem numberedId_injective : Function.Injective QueueSession.numberedId := by
  intro i j h
  have hlist := congrArg String.toList h
  rw [QueueSession.numberedId, QueueSession.numberedId, String.toList_append, String.toList_append,
    Nat.toList_repr, Nat.toList_repr] at hlist
  exact toDigits_inj (List.append_cancel_left hlist)

/-! ## Calls -/

/-- A list that is sent in batches of ten, each element as something that stands in a relation to it. -/
structure SentInBatches {α β : Type} (R : α → β → Prop) (l : List α) (bs : List (List β)) : Prop where
  /-- There are as many batches as are needed. -/
  count : bs.length = l.length ⌈/⌉ 10
  /-- All batches but the last one are full. -/
  full : ∀ b ∈ bs.dropLast, b.length = 10
  /-- The last one is not empty. -/
  last : ∀ b, bs.getLast? = some b → 1 ≤ b.length ∧ b.length ≤ 10
  /-- End to end they are the list, in order. -/
  inOrder : List.Forall₂ R l bs.flatten

/-- Elements that stand in a relation to those of a list are sent in its batches. -/
theorem sentInBatches {α β : Type} {R : α → β → Prop} {l : List α} {entries : List β}
    (h : List.Forall₂ R l entries) : SentInBatches R l (batches entries) := by
  constructor
  case count =>
    rw [h.length_eq]
    exact length_pieces _ entries
  case full => exact length_of_mem_dropLast_pieces
  case last => exact fun b hb => length_of_mem_pieces b (List.mem_of_getLast? hb)
  case inOrder => rwa [flatten_batches]

variable {name known : String} {q next : QueueSession}

/-- A push sends its batches once the URL is known, and takes an id for each message. -/
theorem exec_pushAll (hurl : (url name).exec q = (.ok known, next)) {messages : List Message}
    (hne : messages ≠ []) :
    ∃ outcome, (pushAll name messages).exec q = (.ok outcome, { next with
      session := next.session.advance
        ((batches (entriesFrom next.ids next.taken messages)).map (.sendMessageBatch known))
      taken := next.taken + messages.length }) := by
  obtain ⟨outcome, hexec, -⟩ := exec_pushBatches known
    (batches (entriesFrom next.ids next.taken messages))
    { next with taken := next.taken + messages.length }
  rw [pushAll, if_neg (by simpa using hne), exec_bind, hurl]
  exact ⟨outcome, hexec⟩

/-- A deletion sends its batches once the URL is known. -/
theorem exec_deleteMessages (hurl : (url name).exec q = (.ok known, next))
    {entries : List DeleteEntry} (hne : entries ≠ []) :
    ∃ outcome, (deleteMessages name entries).exec q = (.ok outcome, { next with
      session := next.session.advance ((batches entries).map (.deleteMessageBatch known)) }) := by
  obtain ⟨outcome, hexec, -⟩ := exec_deleteBatches known (batches entries) next
  rw [deleteMessages, if_neg (by simpa using hne), exec_bind, hurl]
  exact ⟨outcome, hexec⟩

/-- **Batches are cut without loss.** Nothing is sent for an empty list. Otherwise, once the URL of
    the queue is known, the requests are those of the batches into which the list is cut, one for
    each of them, and the entries of a push have different ids, provided that the supply of ids does
    not repeat any. -/
theorem cut_without_loss (name : String) (q : QueueSession) (hids : Function.Injective q.ids) :
    (pushAll name []).exec q = (.ok .empty, q) ∧
      (deleteMessages name []).exec q = (.ok .empty, q) ∧
      ∀ known next, (url name).exec q = (.ok known, next) →
        (∀ messages : List Message, messages ≠ [] → ∃ bs : List (List PushEntry), ∃ outcome,
          (pushAll name messages).exec q = (.ok outcome, { next with
            session := next.session.advance (bs.map (.sendMessageBatch known))
            taken := next.taken + messages.length }) ∧
          SentInBatches EntryOf messages bs ∧ (bs.flatten.map (·.id)).Nodup) ∧
        ∀ entries : List DeleteEntry, entries ≠ [] → ∃ bs : List (List DeleteEntry), ∃ outcome,
          (deleteMessages name entries).exec q = (.ok outcome, { next with
            session := next.session.advance (bs.map (.deleteMessageBatch known)) }) ∧
          SentInBatches Eq entries bs := by
  refine ⟨rfl, rfl, fun known next hurl => ⟨fun messages hne => ?push, fun entries hne => ?delete⟩⟩
  case push =>
    obtain ⟨outcome, hexec⟩ := exec_pushAll hurl hne
    refine ⟨_, outcome, hexec, sentInBatches (forall₂_entriesFrom next.ids next.taken messages), ?_⟩
    rw [flatten_batches, ids_of_exec_url hurl]
    exact nodup_ids_entriesFrom hids next.taken messages
  case delete =>
    obtain ⟨outcome, hexec⟩ := exec_deleteMessages hurl hne
    exact ⟨_, outcome, hexec, sentInBatches (List.forall₂_refl entries)⟩

/-- A session in which the URL of a queue is known. -/
def knownJobs : QueueSession where
  session := .start []
  urls := .ofList [("jobs", "https://queues/jobs")]
  ids := QueueSession.numberedId
  taken := 0

/-- Eleven messages of which each one is an empty document. -/
def elevenMessages : List Message := List.replicate 11 (.ofBody (.json (.object [])))

/-- Twenty received messages. -/
def twentyEntries : List DeleteEntry := List.replicate 20 ⟨"received", "handle"⟩

theorem cut_without_loss_knownJobs :
    (∃ bs : List (List PushEntry), ((pushAll "jobs" elevenMessages).exec knownJobs).2.session.sent
          = bs.map (.sendMessageBatch "https://queues/jobs") ∧
        bs.length = 2 ∧ SentInBatches EntryOf elevenMessages bs) ∧
      ∃ bs : List (List DeleteEntry),
        ((deleteMessages "jobs" twentyEntries).exec knownJobs).2.session.sent
          = bs.map (.deleteMessageBatch "https://queues/jobs") ∧
        bs.length = 2 ∧ SentInBatches Eq twentyEntries bs := by
  obtain ⟨-, -, hcalls⟩ := cut_without_loss "jobs" knownJobs numberedId_injective
  obtain ⟨hpush, hdelete⟩ := hcalls "https://queues/jobs" knownJobs rfl
  constructor
  · obtain ⟨bs, outcome, hexec, hsent, -⟩ := hpush elevenMessages (List.cons_ne_nil _ _)
    refine ⟨bs, ?_, hsent.count, hsent⟩
    rw [hexec]
    exact List.nil_append _
  · obtain ⟨bs, outcome, hexec, hsent⟩ := hdelete twentyEntries (List.cons_ne_nil _ _)
    refine ⟨bs, ?_, hsent.count, hsent⟩
    rw [hexec]
    exact List.nil_append _

end Queue

end Depot
