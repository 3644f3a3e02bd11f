import AgentHub.Hub.Moves
import AgentHub.Relational.Transition

namespace AgentHub

open Relational

/-!
# The hub as a system

A run of the hub is a list of calls; a call is one store operation and the clock readings it
gets.  Readings are arbitrary, so the clock may step backwards between calls and within one.

* `Op` — the store's operations with their arguments, `program` the transaction of each;
* `Call.exec` — one atomic step: commit, or no change at all;
* `Op.kinds`, `moves_exec` — every step is a chain of moves of its operation's kinds;
* `moves_run` — every run is a chain of moves.
-/

/-- A store operation and its arguments. -/
inductive Op where
  | initializeWorkflow (goal : String) (policy : WorkflowPolicy)
  | setWorkflowStatus (status : WorkflowStatus) (summary : String)
  | logDecision (summary rationale : String) (key : Option String)
  | checkIn (name : String) (profile : AgentProfile) (workerInstanceId : Option String)
      (op : Ledgered AgentRecord) (remoteAddr : Option String)
  | heartbeat (name workerInstanceId : String) (currentTaskId : Option String)
      (maxMin : Option ℚ) (remoteAddr : Option String)
  | releaseAgent (name : String)
  | assignTask (agent role title instructions : String) (leaseMin : ℚ)
      (prHeadSha : Option String) (sourceEventId : Option ℕ)
  | claimAssignment (name : String)
  | recordProgress (taskId agent note : String) (op : Ledgered Unit)
  | openQuestion (taskId agent question sentAs : String)
  | reply (taskId text : String) (messageId : ℕ)
  | submitResult (taskId agent : String) (result : Option ResultArg) (summary : String)
      (artifacts : List Fields) (status : Option TaskState) (op : Ledgered TaskRecord)
  | cancelTask (taskId : String)
  | setTaskState (taskId : String) (state : TaskState) (note : String)
  | appendEvent (payload : EventPayload)
  | ackEvent (deliveryId : Option String)
  | leaseNextEvent (leaseS : Option ℚ)
  | sweep (lostAfterS : ℚ)

/-- The program of an operation, its result dropped. -/
def program : Op → Txn Unit
  | .initializeWorkflow goal policy => discard (initializeWorkflow goal policy)
  | .setWorkflowStatus status summary => discard (setWorkflowStatus status summary)
  | .logDecision summary rationale key => discard (logDecision summary rationale key)
  | .checkIn name profile workerInstanceId op remoteAddr =>
    discard (checkIn name profile workerInstanceId op remoteAddr)
  | .heartbeat name workerInstanceId currentTaskId maxMin remoteAddr =>
    discard (heartbeat name workerInstanceId currentTaskId maxMin remoteAddr)
  | .releaseAgent name => discard (releaseAgent name)
  | .assignTask agent role title instructions leaseMin prHeadSha sourceEventId =>
    discard (assignTask agent role title instructions leaseMin prHeadSha sourceEventId)
  | .claimAssignment name => discard (claimAssignment name)
  | .recordProgress taskId agent note op => discard (recordProgress taskId agent note op)
  | .openQuestion taskId agent question sentAs =>
    discard (openQuestion taskId agent question sentAs)
  | .reply taskId text messageId => discard (reply taskId text messageId)
  | .submitResult taskId agent result summary artifacts status op =>
    discard (submitResult taskId agent result summary artifacts status op)
  | .cancelTask taskId => discard (cancelTask taskId)
  | .setTaskState taskId state note => discard (setTaskState taskId state note)
  | .appendEvent payload => discard (appendEvent payload)
  | .ackEvent deliveryId => discard (ackEvent deliveryId)
  | .leaseNextEvent leaseS => discard (leaseNextEvent leaseS)
  | .sweep lostAfterS => discard (sweep lostAfterS)

/-- One call of the store: the operation, and what the clock says while it runs. -/
structure Call where
  op : Op
  clock : ℕ → Moment

/-- A clock that stands still, to run the hub on. -/
def stoppedClock : ℕ → Moment := fun _ => ⟨43200000000, by decide⟩

/-- The connection an operation runs on. -/
def Hub.connect (s : Hub) (clock : ℕ → Moment) : Conn := ⟨s.db, clock, s.uuids, []⟩

/-- One atomic step of the hub. -/
def Call.exec (l : Call) (s : Hub) : Hub := (atomically (program l.op) (s.connect l.clock)).2.hub

/-- The hub over a fresh database of the current version. -/
def Hub.start (u : Uuids) : Hub := ⟨Db.empty, u⟩

/-- The state after a run. -/
def Hub.run (s : Hub) (ls : List Call) : Hub := runFrom Call.exec s ls

/-- A discarded result is still a commit. -/
theorem commits_discard {α : Type} {x : Txn α} {c c' : Conn} {u : Unit} :
    Commits (discard x) c u c' ↔ ∃ a, Commits x c a c' := by
  show Commits ((fun _ => PUnit.unit) <$> x) c u c' ↔ _
  simp

/-- A call runs the operation, whatever becomes of its result. -/
theorem Call.exec_eq {α : Type} {op : Op} {x : Txn α} (h : program op = discard x)
    (clock : ℕ → Moment) (s : Hub) :
    (Call.mk op clock).exec s = (atomically x (s.connect clock)).2.hub := by
  have hdiscard : discard x = (fun _ => PUnit.unit) <$> x := rfl
  rw [Call.exec, h, hdiscard, atomically_map]

/-- The kinds of move an operation makes. -/
def Op.kinds : Op → List Kind
  | .initializeWorkflow .. => [.draw, .create]
  | .setWorkflowStatus .. => [.setWorkflowStatus]
  | .logDecision .. => [.decide]
  | .checkIn .. => [.draw, .checkIn]
  | .heartbeat .. => [.draw, .beat, .renew]
  | .releaseAgent .. => [.draw, .release]
  | .assignTask .. => [.draw, .assign]
  | .claimAssignment .. => [.claim]
  | .recordProgress .. => [.draw, .progress]
  | .openQuestion .. => [.draw, .ask]
  | .reply .. => [.answer]
  | .submitResult .. => [.draw, .settle]
  | .cancelTask .. => [.draw, .cancel]
  | .setTaskState .. => [.draw, .override]
  | .appendEvent .. => [.draw, .append]
  | .ackEvent .. => [.ack]
  | .leaseNextEvent .. => [.draw, .lease]
  | .sweep .. => [.expire, .lose, .loseTask]

/-- Every call of the hub is a run of moves of the kinds it names. -/
theorem moves_program {op : Op} {c c' : Conn} {u : Unit} (h : Commits (program op) c u c') :
    Moves (· ∈ op.kinds) c.hub c'.hub := by
  have hone {k : Kind} (h : Moves (· = k) c.hub c'.hub) : Moves (· ∈ [k]) c.hub c'.hub :=
    h.mono fun _ hk => List.mem_singleton.mpr hk
  cases op <;> obtain ⟨_, h⟩ := commits_discard.mp h
  case initializeWorkflow => exact moves_initializeWorkflow h
  case setWorkflowStatus => exact hone (moves_setWorkflowStatus h)
  case logDecision => exact hone (moves_logDecision h)
  case checkIn => exact moves_checkIn h
  case heartbeat => exact moves_heartbeat h
  case releaseAgent => exact moves_releaseAgent h
  case assignTask => exact moves_assignTask h
  case claimAssignment => exact hone (moves_claimAssignment h)
  case recordProgress => exact moves_recordProgress h
  case openQuestion => exact moves_openQuestion h
  case reply => exact hone (moves_reply h)
  case submitResult => exact moves_submitResult h
  case cancelTask => exact moves_cancelTask h
  case setTaskState => exact moves_setTaskState h
  case appendEvent => exact moves_appendEvent h
  case ackEvent => exact hone (moves_ackEvent h)
  case leaseNextEvent => exact moves_leaseNextEvent h
  case sweep => exact moves_sweep h

/-- **Every step of the hub is a chain of moves** of its operation's kinds. -/
theorem moves_exec (l : Call) (s : Hub) : Moves (· ∈ l.op.kinds) s (l.exec s) := by
  obtain ⟨u, c', hc, h⟩ | ⟨e, -, h⟩ := atomically_cases (program l.op) (s.connect l.clock)
  · rw [Call.exec, h]
    exact moves_program hc
  · rw [Call.exec, h]
    exact .refl

/-- Every run is a chain of moves. -/
theorem moves_run (s : Hub) (ls : List Call) : Moves (fun _ => True) s (s.run ls) :=
  run_rel (I := fun _ => True) (fun _ _ _ => trivial) (fun _ => .refl)
    (fun _ _ _ h h' => h.trans h')
    (fun l s _ => (moves_exec l s).mono fun _ _ => trivial) trivial ls

end AgentHub
