import AgentHub.Hub.Statements

namespace AgentHub

open Relational

/-!
# The mutation ledger

The three worker mutations share one protocol around their effects: look the operation id up
before anything else, and write the ledger row last, in the same transaction.

* `Ledgered` — the keyword arguments that carry it; `Mutation` — what the caller gets back;
* `replay` — the lookup: the recorded response, or nothing when this call must run;
* `record` — the row written for a call that ran.
-/

/-- `operation_id`, `payload_hash` and `response_builder` of a ledgered call. -/
structure Ledgered (α : Type) where
  operationId : Option String := none
  payloadHash : Option String := none
  responseBuilder : Option (α → String) := none

/-- What a ledgered call returns. -/
inductive Mutation (α : Type) where
  /-- No `operation_id` was given: the bare value. -/
  | bare (value : α)
  /-- `(value, True)`: an `operation_id` without the rest. -/
  | unrecorded (value : α)
  /-- `(response_json, True)`: the call ran and was recorded. -/
  | recorded (responseJson : String)
  /-- `(response_json, False)`: the call had run before. -/
  | replayed (responseJson : String)

/-- The id and hash a ledger lookup needs. -/
def Ledgered.entry? {α : Type} (op : Ledgered α) : Option (String × String) :=
  match op.operationId, op.payloadHash with
  | some id, some hash => some (id, hash)
  | _, _ => none

/-- The row a call that returned `value` leaves behind. -/
def Ledgered.row? {α : Type} (op : Ledgered α) (actor : String) (value : α) (created : Stamp) :
    Option OperationRecord :=
  match op.operationId, op.payloadHash, op.responseBuilder with
  | some operationId, some payloadHash, some build =>
    some { actor, operationId, payloadHash, responseJson := build value, created }
  | _, _, _ => none

/-- What a call that ran returns. -/
def Ledgered.outcome {α : Type} (op : Ledgered α) (value : α) : Mutation α :=
  match op.operationId, op.payloadHash, op.responseBuilder with
  | none, _, _ => .bare value
  | some _, some _, some build => .recorded (build value)
  | some _, _, _ => .unrecorded value

/-- The ledger row, when there is one to write. -/
@[simps] def Db.record (d : Db) (row : Option OperationRecord) : Db :=
  { d with operations := row.elim d.operations d.operations.insertOrIgnore }

/-- Look the operation up: its response if it ran with this payload, an error if it ran with
    another. -/
def replay {α : Type} (actor : String) (op : Ledgered α) : Txn (Option String) :=
  match op.entry? with
  | none => return none
  | some (operationId, payloadHash) => do
    match (← readDb).operations.find? (actor, operationId) with
    | none => return none
    | some row =>
      refuseIf (row.payloadHash ≠ payloadHash) .idempotencyConflict
        s!"operation {pyRepr operationId} already executed with different payload"
      return some row.responseJson

/-- Write the ledger row of a call that returned `value`. -/
def record {α : Type} (actor : String) (op : Ledgered α) (value : α) : Txn (Mutation α) :=
  match op.operationId, op.payloadHash, op.responseBuilder with
  | some operationId, some payloadHash, some build => do
    let responseJson := build value
    let created ← nowIso
    insertOperation { actor, operationId, payloadHash, responseJson, created }
    return .recorded responseJson
  | some _, _, _ => return .unrecorded value
  | none, _, _ => return .bare value

section

variable {α : Type} {c c' : Conn} {actor : String} {op : Ledgered α}

/-- The call runs only when the ledger does not know its id, and is answered from the ledger
    when it knows it under the same payload. -/
theorem commits_replay {o : Option String} :
    Commits (replay actor op) c o c' ↔
      c' = c ∧
        ((o = none ∧ ∀ id hash, op.entry? = some (id, hash) →
            c.db.operations.find? (actor, id) = none) ∨
          ∃ id hash row, op.entry? = some (id, hash) ∧
            c.db.operations.find? (actor, id) = some row ∧ row.payloadHash = hash ∧
            o = some row.responseJson) := by
  unfold replay
  rcases op.entry? with _ | ⟨id, hash⟩
  · simp [and_comm]
  · cases hrow : c.db.operations.find? (actor, id) with
    | none => simp [hrow, and_comm]
    | some row => simp [hrow]; tauto

/-- A call that ran returns its outcome and leaves its row, under a key that was free. -/
theorem record_cases {value : α} {m : Mutation α} (h : Commits (record actor op value) c m c') :
    ∃ row, row = op.row? actor value (c.clock 0).toIso ∧ m = op.outcome value ∧
      (∀ r ∈ row, c.db.operations.find? r.key = none) ∧
      c'.db = c.db.record row ∧ c'.uuids = c.uuids ∧ c'.notified = c.notified := by
  refine ⟨_, rfl, ?_⟩
  unfold record at h
  unfold Ledgered.row? Ledgered.outcome
  rcases op with ⟨_ | id, _ | hash, _ | build⟩
  case some.some.some =>
    simp only [commits_bind, commits_nowIso, commits_insertOperation, commits_pure] at h
    obtain ⟨_, _, ⟨rfl, rfl⟩, _, _, ⟨hfree, rfl⟩, rfl, rfl⟩ := h
    exact ⟨rfl, by simpa using hfree, rfl, rfl, rfl⟩
  all_goals
    obtain ⟨rfl, rfl⟩ := commits_pure.mp h
    exact ⟨rfl, by simp, rfl, rfl, rfl⟩

end

end AgentHub
