import AgentHub.Common.Models
import AgentHub.Report.Spans
import Mathlib.Data.Rat.Defs
import Mathlib.Data.List.Dedup
import Mathlib.Data.String.Basic
import Mathlib.Algebra.Order.Ring.Rat
import Mathlib.Algebra.Order.Ring.Int
import Mathlib.Algebra.Order.Field.Basic
import Mathlib.Data.Int.ConditionallyCompleteOrder
import Mathlib.Order.CompletePartialOrder
import Mathlib.Tactic.Ring
import Mathlib.Tactic.Linarith

namespace AgentHub.Report

open Intervals

/-!
# The figures of one agent

`agent_figures` of the report script: where the time between an agent's first and last sign of life
went, how many calls it made and how many bytes they took.

* `Call`, `CallRow`, `Telemetry`, `TaskFigures`, `Snapshot` — what it reads;
* `TimeSplit`, `timeSplit` — the window of an agent, its turn and its waiting;
* `agentFigures` — `agent_figures`;
* `TimeSplit.Partition` — turn and waiting are disjoint parts of the window, and the room they
  leave in it is the idle time.
-/

/-- An aware datetime, in microseconds. -/
abbrev Instant := ℤ

/-- `HOLD_TOOLS`. -/
def holdTools : List String := ["await_assignment", "wait_for_event"]

/-- `EMPTY_OUTCOMES`. -/
def emptyOutcomes : List String := ["timeout", "null_event"]

/-! ### What the figures are taken from -/

/-- `Call`. -/
structure Call where
  tool : String
  outcome : String
  start : Option Instant
  finish : Option Instant
  mcpSent : ℤ := 0
  mcpReceived : ℤ := 0
  content : ℤ := 0
  wireSent : ℤ := 0
  wireReceived : ℤ := 0
  retries : ℤ := 0

/-- A blocking hold that returned with nothing. -/
def Call.isEmptyHold (c : Call) : Bool :=
  holdTools.contains c.tool && emptyOutcomes.contains c.outcome

/-- A row of `call_log`.  A byte count that is no integer is absent. -/
structure CallRow where
  actor : Option String
  tool : Option String
  outcome : Option String
  boundary : String
  started : Option String
  finished : Option String
  bytesIn : Option ℤ
  bytesOut : Option ℤ
  contentBytes : Option ℤ

/-- The fields of `Telemetry` that the figures read; a dict by its items. -/
structure Telemetry where
  calls : List (String × List Call)
  heartbeats : List (String × ℕ)
  released : List (String × Instant)

/-- A row of `agent`. -/
structure AgentRow where
  name : String
  status : Option String
  harness : Option String
  provider : Option String
  model : Option String

/-- The fields of one of the `task_figures` that the figures of an agent read. -/
structure TaskFigures where
  assignee : Option String
  pickedUp : Option String
  created : Option String
  finished : Option String

/-- The tables of the snapshot that the figures read; of `workflow` the status of the first row. -/
structure Snapshot where
  agent : List AgentRow
  workflow : Option (Option String)
  callLog : List CallRow

/-- `LABEL_RE.fullmatch`. -/
def isLabel (s : String) : Bool :=
  1 ≤ s.toList.length && s.toList.length ≤ 64 &&
    s.toList.all fun c => c.isAlphanum || ['_', '.', '/', ':', '-'].contains c

/-- `closed`. -/
def closed (value : Option String) : Option String := value.filter isLabel

section Figures

variable (parseTs : Option String → Option Instant)

/-- The actor a row is filed under. -/
def CallRow.by (row : CallRow) : String := (closed row.actor).getD "unknown"

/-- The tool of a row, under its closed label. -/
def CallRow.toolName (row : CallRow) : String := (closed row.tool).getD "unknown"

/-- The call `call_log_calls` makes of a row. -/
def CallRow.toCall (row : CallRow) : Call :=
  let mcp : Bool := row.boundary = "mcp"
  { tool := row.toolName
    outcome := (closed row.outcome).getD "unknown"
    start := parseTs row.started
    finish := parseTs row.finished
    mcpSent := if mcp then row.bytesIn.getD 0 else 0
    mcpReceived := if mcp then row.bytesOut.getD 0 else 0
    content := if mcp then row.contentBytes.getD 0 else 0
    wireSent := if mcp then 0 else row.bytesIn.getD 0
    wireReceived := if mcp then 0 else row.bytesOut.getD 0 }

/-- `call_log_calls`: the calls of one actor, in the order of the rows. -/
def loggedCalls (rows : List CallRow) (name : String) : List Call :=
  (rows.filter fun row => row.by = name).map (CallRow.toCall parseTs)

/-- `call_log_calls`: the heartbeats of one actor. -/
def loggedHeartbeats (rows : List CallRow) (name : String) : ℕ :=
  (rows.filter fun row => row.by = name ∧ row.toolName = "heartbeat").length

variable (snapshot : Snapshot) (telemetry : Telemetry) (tasks : List TaskFigures)
  (expected : List String) (now : Instant)

/-! ### The window of an agent -/

/-- The row of an agent; of two rows with one name a dict keeps the last. -/
def rowOf (name : String) : Option AgentRow := (snapshot.agent.filter (·.name = name)).getLast?

/-- The calls the figures of an agent are taken from, and where they come from. -/
def callsOf (name : String) : List Call × String :=
  let hubCalls := loggedCalls parseTs snapshot.callLog name
  if name = alice then (hubCalls, if hubCalls.isEmpty then "none" else "call_log")
  else
    match (telemetry.calls.lookup name).getD [] with
    | call :: calls => (call :: calls, "telemetry")
    | [] =>
      (hubCalls.filter fun c => c.tool ≠ "heartbeat",
        if hubCalls.isEmpty then "none" else "call_log")

/-- `active_windows`. -/
def activeWindows (name : String) : List (Span Instant) :=
  union (tasks.filterMap fun task =>
    if task.assignee ≠ some name then none
    else
      ((parseTs task.pickedUp).or (parseTs task.created)).map fun start =>
        (start, (parseTs task.finished).getD now))

/-- `first`. -/
def firstOf (name : String) (calls : List Call) : Option Instant :=
  let all := (calls.filterMap Call.start).min?
  if name = alice then all
  else ((calls.filter fun c => c.tool = "check_in").filterMap Call.start).min?.or all

/-- `released`. -/
def releasedOf (name : String) (calls : List Call) : Option Instant :=
  (telemetry.released.lookup name).or
    ((calls.filter fun c => c.outcome = "release").filterMap Call.finish).max?

/-- `last`: the release, or the last sign of life; the clock of a connected agent runs on. -/
def lastOf (name : String) (calls : List Call) : Option Instant :=
  let released := releasedOf telemetry name calls
  let last := released.or (calls.filterMap Call.finish ++ calls.filterMap Call.start).max?
  let connected := (rowOf snapshot name).any fun row =>
    row.status = some "idle" || row.status = some "busy"
  if released.isNone && connected then last.map (max · now) else last

/-- `waiting_holds`. -/
def waitingHolds (calls : List Call) : List (Span Instant) :=
  calls.filterMap fun c =>
    if c.isEmptyHold then c.start.bind fun start => c.finish.map fun finish => (start, finish)
    else none

/-- The window of an agent, and the two parts of it that are measured. -/
structure TimeSplit where
  first : Instant
  last : Instant
  turn : List (Span Instant)
  waiting : List (Span Instant)
deriving DecidableEq

/-- The window of an agent, its turn and its waiting: Alice's turn is what her holds leave, a
    worker's the time it had a task, whatever it held. -/
def timeSplit (name : String) : Option TimeSplit :=
  let calls := (callsOf parseTs snapshot telemetry name).1
  match firstOf name calls, lastOf snapshot telemetry now name calls with
  | some first, some last =>
    if last ≥ first then
      let waiting := clip (waitingHolds calls) first last
      if name = alice then some ⟨first, last, subtract [(first, last)] waiting, waiting⟩
      else
        let turn := clip (activeWindows parseTs tasks now name) first last
        some ⟨first, last, turn, subtract waiting turn⟩
    else none
  | _, _ => none

/-! ### The figures -/

/-- `total_seconds()`. -/
def totalSeconds (d : ℤ) : ℚ := d / 1000000

/-- `span`, given `round(·, 3)`. -/
def span (round : ℚ → ℚ) (intervals : List (Span Instant)) : ℚ :=
  round (intervals.map fun i => totalSeconds (i.2 - i.1)).sum

/-- `time_s`. -/
structure TimeFigures where
  total : ℚ
  turn : ℚ
  waiting : ℚ
  idle : ℚ
deriving DecidableEq

/-- The figures of a split, as the report rounds them. -/
def TimeSplit.figures (round : ℚ → ℚ) (s : TimeSplit) : TimeFigures :=
  let total := span round [(s.first, s.last)]
  let turn := span round s.turn
  let waiting := span round s.waiting
  ⟨total, turn, waiting, round (max 0 (total - turn - waiting))⟩

/-- `calls`. -/
structure CallFigures where
  total : ℕ
  active : ℕ
  waiting : ℕ
  other : ℤ

/-- `bytes`. -/
structure ByteFigures where
  mcpSent : ℤ
  mcpReceived : ℤ
  mcpContext : ℤ
  a2aSent : ℤ
  a2aReceived : ℤ

/-- What `agent_figures` returns for an agent; the times of day before `iso` prints them, and
    `none` for the four absent figures of `time_s`. -/
structure AgentFigures where
  name : String
  checkedIn : Bool
  status : Option String
  harness : Option String
  provider : Option String
  model : Option String
  callsSource : String
  wireSource : String
  calls : CallFigures
  heartbeats : ℕ
  timeouts : ℕ
  retries : ℤ
  errors : ℕ
  bytes : ByteFigures
  firstSeen : Option Instant
  lastSeen : Option Instant
  released : Option Instant
  time : Option TimeFigures

/-- A call that is no empty hold and counts as part of the agent's turn. -/
def isActive (name : String) (windows : List (Span Instant)) (c : Call) : Bool :=
  !c.isEmptyHold && (name = alice || c.start.any fun start => within start windows)

/-- `calls` of an agent. -/
def callFigures (name : String) (windows : List (Span Instant)) (calls : List Call) :
    CallFigures :=
  let active := calls.countP (isActive name windows)
  let waiting := calls.countP Call.isEmptyHold
  ⟨calls.length, active, waiting, calls.length - active - waiting⟩

/-- The calls the bytes on the wire are taken from, and where they come from. -/
def wireOf (name : String) : List Call × String :=
  let (calls, source) := callsOf parseTs snapshot telemetry name
  let measured := (loggedCalls parseTs snapshot.callLog name).filter fun c =>
    c.wireSent ≠ 0 || c.wireReceived ≠ 0
  if !measured.isEmpty then (measured, "call_log")
  else
    let rows := if source = "telemetry" then calls else []
    (rows, if rows.isEmpty then "none" else "telemetry")

/-- The names of the agents, Alice first. -/
def agentNames : List String :=
  let known := snapshot.agent.map AgentRow.name ++ expected ++ telemetry.calls.map Prod.fst ++
    telemetry.heartbeats.map Prod.fst ++ snapshot.callLog.map CallRow.by
  alice :: (known.dedup.filter (· ≠ alice)).insertionSort (· ≤ ·)

/-- One turn of the loop of `agent_figures`, given `round(·, 3)`. -/
def agentFiguresOf (round : ℚ → ℚ) (name : String) : AgentFigures :=
  let row := rowOf snapshot name
  let (calls, source) := callsOf parseTs snapshot telemetry name
  let (wireRows, wireSource) := wireOf parseTs snapshot telemetry name
  let beats := (telemetry.heartbeats.lookup name).getD 0
  { name
    checkedIn := name = alice || row.isSome
    status :=
      match row with
      | some row => closed row.status
      | none => if name = alice then snapshot.workflow.bind closed else none
    harness := row.bind fun row => closed row.harness
    provider := row.bind fun row => closed row.provider
    model := row.bind fun row => closed row.model
    callsSource := source
    wireSource
    calls := callFigures name (activeWindows parseTs tasks now name) calls
    heartbeats := if beats = 0 then loggedHeartbeats snapshot.callLog name else beats
    timeouts := calls.countP fun c => emptyOutcomes.contains c.outcome
    retries := (calls.map Call.retries).sum
    errors := calls.countP fun c => c.outcome = "error"
    bytes :=
      { mcpSent := (calls.map Call.mcpSent).sum
        mcpReceived := (calls.map Call.mcpReceived).sum
        mcpContext := (calls.map Call.content).sum
        a2aSent := (wireRows.map Call.wireSent).sum
        a2aReceived := (wireRows.map Call.wireReceived).sum }
    firstSeen := firstOf name calls
    lastSeen := lastOf snapshot telemetry now name calls
    released := releasedOf telemetry name calls
    time := (timeSplit parseTs snapshot telemetry tasks now name).map (TimeSplit.figures round) }

/-- `agent_figures`. -/
def agentFigures (round : ℚ → ℚ) : List AgentFigures :=
  (agentNames snapshot telemetry expected).map
    (agentFiguresOf parseTs snapshot telemetry tasks now round)

/-! ### The partition -/

/-- Turn and waiting are lists of separated intervals inside the window, without a common point. -/
structure TimeSplit.Partition (s : TimeSplit) : Prop where
  window : s.first ≤ s.last
  turn_separated : Separated s.turn
  waiting_separated : Separated s.waiting
  turn_subset : region s.turn ⊆ Set.Ico s.first s.last
  waiting_subset : region s.waiting ⊆ Set.Ico s.first s.last
  disjoint : Disjoint (region s.turn) (region s.waiting)

/-- The two parts of the time of an agent, by the two rules. -/
theorem timeSplit_cases {name : String} {s : TimeSplit}
    (h : timeSplit parseTs snapshot telemetry tasks now name = some s) :
    s.first ≤ s.last ∧ ∃ holds windows : List (Span Instant),
      (name = alice ∧ s.waiting = clip holds s.first s.last ∧
        s.turn = subtract [(s.first, s.last)] s.waiting) ∨
      (name ≠ alice ∧ s.turn = clip windows s.first s.last ∧
        s.waiting = subtract (clip holds s.first s.last) s.turn) := by
  rw [timeSplit] at h
  split at h
  · next first last hfirst hlast =>
    by_cases hle : last ≥ first
    · rw [if_pos hle] at h
      by_cases hname : name = alice
      · rw [if_pos hname] at h
        rw [← Option.some.inj h]
        exact ⟨hle, _, [], .inl ⟨hname, rfl, rfl⟩⟩
      · rw [if_neg hname] at h
        rw [← Option.some.inj h]
        exact ⟨hle, _, _, .inr ⟨hname, rfl, rfl⟩⟩
    · rw [if_neg hle] at h
      cases h
  · cases h

/-- What is clipped lies within the bounds. -/
theorem region_clip_subset (l : List (Span Instant)) (lower upper : Instant) :
    region (clip l lower upper) ⊆ Set.Ico lower upper := by
  rw [region_clip]
  exact Set.inter_subset_right

/-- **The split of an agent's time is a partition.** -/
theorem timeSplit_partition {name : String} {s : TimeSplit}
    (h : timeSplit parseTs snapshot telemetry tasks now name = some s) : s.Partition := by
  obtain ⟨hle, holds, windows, ⟨-, hwaiting, hturn⟩ | ⟨-, hturn, hwaiting⟩⟩ :=
    timeSplit_cases parseTs snapshot telemetry tasks now h
  · -- Alice: the turn is what the waiting leaves of the window
    refine ⟨hle, ?_, ?_, ?_, ?_, ?_⟩
    · exact hturn ▸ subtract_separated _ _
    · exact hwaiting ▸ clip_separated _ _ _
    · rw [hturn, region_subtract]
      rintro t ⟨⟨i, hi, ht⟩, -⟩
      rw [List.mem_singleton] at hi
      rwa [hi] at ht
    · exact hwaiting ▸ region_clip_subset _ _ _
    · rw [hturn, region_subtract]
      exact Set.disjoint_sdiff_left
  · -- a worker: the waiting is what the turn leaves of the holds
    refine ⟨hle, ?_, ?_, ?_, ?_, ?_⟩
    · exact hturn ▸ clip_separated _ _ _
    · exact hwaiting ▸ subtract_separated _ _
    · exact hturn ▸ region_clip_subset _ _ _
    · rw [hwaiting, region_subtract]
      exact Set.sdiff_subset.trans (region_clip_subset _ _ _)
    · rw [hwaiting, region_subtract]
      exact Set.disjoint_sdiff_right

/-- The room turn and waiting take is at most the window's. -/
theorem TimeSplit.Partition.room_le {s : TimeSplit} (h : s.Partition) :
    room s.turn + room s.waiting ≤ s.last - s.first := by
  have hmeet : ∀ t ∈ region s.turn, t ∉ region s.waiting :=
    fun t ht => Set.disjoint_left.mp h.disjoint ht
  have happart := h.turn_separated.apart.append h.waiting_separated.apart hmeet
  rw [← room_append]
  apply room_le_of_apart h.window happart
  intro i hi
  rcases List.mem_append.mp hi with hi | hi
  · exact bounds_of_region_subset h.turn_separated.nonempty h.turn_subset hi
  · exact bounds_of_region_subset h.waiting_separated.nonempty h.waiting_subset hi

/-- Before rounding, a span is the room of its intervals. -/
theorem span_id (l : List (Span Instant)) : span id l = totalSeconds (room l) := by
  induction l with
  | nil => simp [span, totalSeconds]
  | cons i l ih =>
    rw [span, id, totalSeconds] at ih
    rw [span, id, List.map_cons, List.sum_cons, ih, room_cons, totalSeconds, totalSeconds]
    push_cast
    ring

/-- A length that is not negative has a number of seconds that is not. -/
theorem totalSeconds_nonneg {d : ℤ} (h : 0 ≤ d) : 0 ≤ totalSeconds d :=
  div_nonneg (by exact_mod_cast h) (by norm_num)

/-- Before rounding, the three parts of an agent's time are non-negative and add up to the total. -/
theorem TimeSplit.Partition.figures_sum {s : TimeSplit} (h : s.Partition) :
    0 ≤ (s.figures id).turn ∧ 0 ≤ (s.figures id).waiting ∧ 0 ≤ (s.figures id).idle ∧
      (s.figures id).turn + (s.figures id).waiting + (s.figures id).idle =
        (s.figures id).total := by
  have hidle : 0 ≤ totalSeconds (s.last - s.first) - totalSeconds (room s.turn) -
      totalSeconds (room s.waiting) := by
    have hroom := totalSeconds_nonneg (sub_nonneg.mpr h.room_le)
    have hsplit : totalSeconds (s.last - s.first - (room s.turn + room s.waiting)) =
        totalSeconds (s.last - s.first) - totalSeconds (room s.turn) -
          totalSeconds (room s.waiting) := by
      simp only [totalSeconds]
      push_cast
      ring
    rwa [hsplit] at hroom
  simp only [TimeSplit.figures, span_id, id, room_cons, room_nil, add_zero]
  rw [max_eq_right hidle]
  refine ⟨totalSeconds_nonneg (room_nonneg h.turn_separated.nonempty),
    totalSeconds_nonneg (room_nonneg h.waiting_separated.nonempty), hidle, ?_⟩
  ring

/-- Alice has no idle time: what is not waiting is her turn. -/
theorem idle_alice {s : TimeSplit}
    (h : timeSplit parseTs snapshot telemetry tasks now alice = some s) :
    (s.figures id).idle = 0 := by
  have hpart := timeSplit_partition parseTs snapshot telemetry tasks now h
  obtain ⟨-, holds, windows, ⟨-, -, hturn⟩ | ⟨hname, -⟩⟩ :=
    timeSplit_cases parseTs snapshot telemetry tasks now h
  · have hcover : Set.Ico s.first s.last ⊆ region (s.turn ++ s.waiting) := by
      intro t ht
      by_cases hwait : t ∈ region s.waiting
      · obtain ⟨i, hi, hti⟩ := hwait
        exact ⟨i, List.mem_append_right _ hi, hti⟩
      · have hmem : t ∈ region s.turn := by
          rw [hturn, region_subtract]
          exact ⟨⟨_, List.mem_singleton_self _, ht⟩, hwait⟩
        obtain ⟨i, hi, hti⟩ := hmem
        exact ⟨i, List.mem_append_left _ hi, hti⟩
    have hne : ∀ i ∈ s.turn ++ s.waiting, i.1 < i.2 := by
      intro i hi
      rcases List.mem_append.mp hi with hi | hi
      · exact hpart.turn_separated.nonempty i hi
      · exact hpart.waiting_separated.nonempty i hi
    have hroom : s.last - s.first = room s.turn + room s.waiting := by
      apply le_antisymm
      · rw [← room_append]
        exact le_room_of_subset hne hcover
      · exact hpart.room_le
    simp only [TimeSplit.figures, span_id, id, room_cons, room_nil, add_zero, hroom, totalSeconds]
    push_cast
    rw [max_eq_left (le_of_eq (by ring))]
  · exact absurd rfl hname

/-- Alice and every agent that is expected, or of which there is a row, a call or a heartbeat. -/
theorem mem_agentNames {name : String} :
    name ∈ agentNames snapshot telemetry expected ↔ name = alice ∨
      name ∈ snapshot.agent.map AgentRow.name ∨ name ∈ expected ∨
      name ∈ telemetry.calls.map Prod.fst ∨ name ∈ telemetry.heartbeats.map Prod.fst ∨
      name ∈ snapshot.callLog.map CallRow.by := by
  rw [agentNames, List.mem_cons, List.mem_insertionSort, List.mem_filter, List.mem_dedup,
    List.mem_append, List.mem_append, List.mem_append, List.mem_append]
  by_cases hname : name = alice <;> simp [hname, or_assoc]

/-- An agent with a first sign of life and no earlier last one has its time split. -/
theorem timeSplit_of_window {name : String} {first last : Instant}
    (hfirst : firstOf name (callsOf parseTs snapshot telemetry name).1 = some first)
    (hlast : lastOf snapshot telemetry now name (callsOf parseTs snapshot telemetry name).1 =
      some last) (hle : first ≤ last) :
    ∃ s, timeSplit parseTs snapshot telemetry tasks now name = some s ∧ s.first = first ∧
      s.last = last := by
  simp only [timeSplit, hfirst, hlast, if_pos hle, ge_iff_le]
  by_cases hname : name = alice
  · rw [if_pos hname]
    exact ⟨_, rfl, rfl, rfl⟩
  · rw [if_neg hname]
    exact ⟨_, rfl, rfl, rfl⟩

/-- **The report partitions time.** `union` returns separated intervals with the points of its
    non-empty inputs, and `subtract` keeps the points outside the removed intervals.  Alice and
    every worker have their figures; whoever was seen over a window has it split, and turn and
    waiting are disjoint parts of it that with the idle time make up the total. -/
theorem report_time_partition {α : Type} [LinearOrder α] (l removed : List (Span α)) :
    (Separated (union l) ∧ region (union l) = region l ∧
      closedRegion (union l) = closedRegion l) ∧
    (region (subtract l removed) = region l \ region removed ∧
      ∀ t, (∀ r ∈ removed, t ≠ r.1 ∧ t ≠ r.2) →
        (t ∈ closedRegion (subtract l removed) ↔ t ∈ closedRegion l ∧ t ∉ closedRegion removed)) ∧
    (agentFigures parseTs snapshot telemetry tasks expected now id).map AgentFigures.name =
      agentNames snapshot telemetry expected ∧
    (∀ name, name ∈ agentNames snapshot telemetry expected ↔ name = alice ∨
      name ∈ snapshot.agent.map AgentRow.name ∨ name ∈ expected ∨
      name ∈ telemetry.calls.map Prod.fst ∨ name ∈ telemetry.heartbeats.map Prod.fst ∨
      name ∈ snapshot.callLog.map CallRow.by) ∧
    ∀ f ∈ agentFigures parseTs snapshot telemetry tasks expected now id,
      (∀ first ∈ f.firstSeen, ∀ last ∈ f.lastSeen, first ≤ last →
        ∃ s, timeSplit parseTs snapshot telemetry tasks now f.name = some s ∧ s.first = first ∧
          s.last = last) ∧
      f.time = (timeSplit parseTs snapshot telemetry tasks now f.name).map
        (TimeSplit.figures id) ∧
      ∀ s ∈ timeSplit parseTs snapshot telemetry tasks now f.name,
        s.Partition ∧
        0 ≤ (s.figures id).turn ∧ 0 ≤ (s.figures id).waiting ∧ 0 ≤ (s.figures id).idle ∧
        (s.figures id).turn + (s.figures id).waiting + (s.figures id).idle =
          (s.figures id).total := by
  refine ⟨⟨union_separated l, region_union l, closedRegion_union l⟩,
    ⟨region_subtract l removed, fun t ht => mem_closedRegion_subtract l ht⟩, ?_,
    fun name => mem_agentNames snapshot telemetry expected, ?_⟩
  · rw [agentFigures, List.map_map]
    exact List.map_id _
  intro f hf
  obtain ⟨name, -, rfl⟩ := List.mem_map.mp hf
  refine ⟨fun first hfirst last hlast hle => ?_, rfl, fun s hs => ?_⟩
  · exact timeSplit_of_window parseTs snapshot telemetry tasks now hfirst hlast hle
  have hpart := timeSplit_partition parseTs snapshot telemetry tasks now hs
  exact ⟨hpart, hpart.figures_sum⟩

end Figures

/-- Bob checks in at 0 and holds in vain until 2; he is released at 5. -/
def bobTelemetry : Telemetry where
  calls := [("bob", [⟨"check_in", "registered", some 0, some 0, 0, 0, 0, 0, 0, 0⟩,
    ⟨"await_assignment", "timeout", some 0, some 2, 0, 0, 0, 0, 0, 0⟩])]
  heartbeats := []
  released := [("bob", 5)]

/-- A time is as late as its text is long. -/
def lengthTs (ts : Option String) : Option Instant := ts.map fun s => s.toList.length

/-- Bob had a task from 1 to 3: his window, his turn, and the part of his hold without the task. -/
theorem report_time_partition_bob :
    ∃ f ∈ agentFigures lengthTs ⟨[], none, []⟩ bobTelemetry
        [⟨some "bob", some "1", none, some "123"⟩] ["bob"] 0 id, f.name = "bob" ∧
      ∃ s, timeSplit lengthTs ⟨[], none, []⟩ bobTelemetry
          [⟨some "bob", some "1", none, some "123"⟩] 0 "bob" = some s ∧
        s = ⟨0, 5, [(1, 3)], [(0, 1)]⟩ ∧ f.time = some (s.figures id) ∧ s.Partition ∧
        (s.figures id).turn + (s.figures id).waiting + (s.figures id).idle =
          (s.figures id).total := by
  obtain ⟨-, -, hnames, hmem, hfigures⟩ := report_time_partition lengthTs ⟨[], none, []⟩
    bobTelemetry [⟨some "bob", some "1", none, some "123"⟩] ["bob"] 0
      [((0 : ℤ), 2), (1, 3)] [(1, 2)]
  have hbob : "bob" ∈ agentNames ⟨[], none, []⟩ bobTelemetry ["bob"] :=
    (hmem "bob").mpr (by simp)
  rw [← hnames] at hbob
  obtain ⟨f, hf, hname⟩ := List.mem_map.mp hbob
  have hsplit : timeSplit lengthTs ⟨[], none, []⟩ bobTelemetry
      [⟨some "bob", some "1", none, some "123"⟩] 0 f.name =
        some ⟨0, 5, [(1, 3)], [(0, 1)]⟩ := by
    rw [hname]
    decide
  obtain ⟨-, htime, hpart⟩ := hfigures f hf
  obtain ⟨hpartition, -, -, -, hsum⟩ := hpart _ hsplit
  rw [hsplit] at htime
  exact ⟨f, hf, hname, _, hname ▸ hsplit, rfl, htime, hpartition, hsum⟩

end AgentHub.Report
