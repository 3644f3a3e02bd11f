import AgentHub.Mcp.Accounting
import AgentHub.Report.Figures

namespace AgentHub.Accounting

open Correlation Report

/-!
# Alice's calls in the report

The report reads back what the accounting wrote.  What it says of Alice is what crossed the pipe.

* `CallRecord.toRow` — the row of a record;
* `alice_calls` — the calls the report takes her figures from are the records;
* `alice_reported` — her calls and bytes are those of the requests that were answered.
-/

/-- The row of `call_log` that a record is written to, as the report reads it. -/
def CallRecord.toRow (r : CallRecord) : CallRow where
  actor := some r.actor
  tool := some r.tool
  outcome := some r.outcome
  boundary := r.boundary
  started := some r.started
  finished := some r.finished
  bytesIn := some r.bytesIn
  bytesOut := some r.bytesOut
  contentBytes := r.contentBytes.map Int.ofNat

/-- The size of a message that was seen. -/
def Observation.size : Observation → ℕ
  | .request m | .response m => m.size

/-- The size of the message at a place. -/
def sizeAt (seen : List Observation) (n : ℕ) : ℕ := (seen[n]?.map Observation.size).getD 0

section

variable (parseTs : Option String → Option Instant) {tools : List String}
  {seen : List Observation} {snapshot : Snapshot}

/-- The calls the report takes Alice's figures from. -/
theorem alice_calls (hlog : (snapshot.callLog.filter fun row => row.by = alice) =
      (McpAccounting.run tools seen).records.map CallRecord.toRow) (telemetry : Telemetry) :
    (callsOf parseTs snapshot telemetry alice).1 =
      (McpAccounting.run tools seen).records.map fun r => r.toRow.toCall parseTs := by
  rw [callsOf, if_pos rfl]
  show (snapshot.callLog.filter fun row => row.by = alice).map (CallRow.toCall parseTs) = _
  rw [hlog, List.map_map]
  rfl

/-- A record of a call is of the MCP boundary, and its labels are read back as they are. -/
theorem toCall_callRecord (previous : Option (List (List Char))) (pending : PendingMcp)
    (m : Message) :
    let r := callRecord previous pending m
    let c := r.toRow.toCall parseTs
    c.outcome = r.outcome ∧ c.mcpSent = r.bytesIn ∧ c.mcpReceived = r.bytesOut ∧
      c.content = (r.contentBytes.getD 0 : ℕ) ∧ c.wireSent = 0 ∧ c.wireReceived = 0 := by
  intro r c
  have houtcome := callRecord_outcome_mem previous pending m
  have hclosed : ∀ outcome ∈ ["ok", "event", "null_event", "error"],
      closed (some outcome) = some outcome := by decide +kernel
  refine ⟨?_, rfl, rfl, ?_, rfl, rfl⟩
  · show (closed (some r.outcome)).getD "unknown" = r.outcome
    rw [hclosed r.outcome houtcome]
    rfl
  · show (r.contentBytes.map Int.ofNat).getD 0 = (r.contentBytes.getD 0 : ℕ)
    cases r.contentBytes <;> rfl

/-- Two lists related item by item have the same image. -/
theorem map_eq_of_forall₂ {α β γ : Type*} {R : α → β → Prop} {f : α → γ} {g : β → γ}
    {as : List α} {bs : List β} (h : List.Forall₂ R as bs) (hR : ∀ a b, R a b → f a = g b) :
    as.map f = bs.map g := by
  have hmapped : List.Forall₂ Eq (as.map f) (bs.map g) := by
    rw [List.forall₂_map_left_iff, List.forall₂_map_right_iff]
    exact h.imp hR
  exact List.forall₂_eq_eq_eq ▸ hmapped

/-- The calls of a list of records that are all of answered requests. -/
theorem accounts_toCall {places : List (ℕ × ℕ)} {records : List CallRecord}
    (h : List.Forall₂ (Accounts tools seen) places records) :
    let calls := records.map fun r => r.toRow.toCall parseTs
    calls.map Report.Call.mcpSent = places.map (fun p => (sizeAt seen p.1 : ℤ)) ∧
      calls.map Report.Call.mcpReceived = places.map (fun p => (sizeAt seen p.2 : ℤ)) ∧
      calls.map Report.Call.content = records.map (fun r => ((r.contentBytes.getD 0 : ℕ) : ℤ)) ∧
      calls.map Report.Call.outcome = records.map CallRecord.outcome ∧
      ∀ c ∈ calls, c.wireSent = 0 ∧ c.wireReceived = 0 := by
  intro calls
  have hmade : ∀ r ∈ records, ∃ previous pending m, r = callRecord previous pending m := by
    intro r hr
    obtain ⟨p, -, ⟨_, m', _, pending, -, -, -, -, ⟨previous, hrecord⟩, -⟩⟩ :=
      exists_of_forall₂ h hr
    exact ⟨previous, pending, m', hrecord⟩
  refine ⟨?_, ?_, ?_, ?_, ?_⟩
  · rw [List.map_map]
    refine (map_eq_of_forall₂ h fun p r hr => ?_).symm
    obtain ⟨m, m', _, pending, hm, -, -, -, ⟨previous, rfl⟩, hin, -⟩ := hr.seen
    show _ = ((callRecord previous pending m').bytesIn : ℤ)
    rw [hin, sizeAt, hm]
    rfl
  · rw [List.map_map]
    refine (map_eq_of_forall₂ h fun p r hr => ?_).symm
    obtain ⟨m, m', _, pending, -, hm', -, -, ⟨previous, rfl⟩, -⟩ := hr.seen
    show _ = (m'.size : ℤ)
    rw [sizeAt, hm']
    rfl
  · rw [List.map_map]
    refine List.map_congr_left fun r hr => ?_
    obtain ⟨previous, pending, m, rfl⟩ := hmade r hr
    exact (toCall_callRecord parseTs previous pending m).2.2.2.1
  · rw [List.map_map]
    refine List.map_congr_left fun r hr => ?_
    obtain ⟨previous, pending, m, rfl⟩ := hmade r hr
    exact (toCall_callRecord parseTs previous pending m).1
  · intro c hc
    obtain ⟨r, hr, rfl⟩ := List.mem_map.mp hc
    obtain ⟨previous, pending, m, rfl⟩ := hmade r hr
    exact (toCall_callRecord parseTs previous pending m).2.2.2.2

/-- Calls and records that agree in their outcomes are counted alike. -/
theorem countP_outcome (p q : String → Bool) {calls : List Report.Call} {records : List CallRecord}
    (h : calls.map Report.Call.outcome = records.map CallRecord.outcome)
    (hpq : ∀ r ∈ records, p r.outcome = q r.outcome) :
    (calls.countP fun c => p c.outcome) = records.countP fun r => q r.outcome := by
  calc (calls.countP fun c => p c.outcome)
      = (calls.map Report.Call.outcome).countP p := (List.countP_map ..).symm
    _ = (records.map CallRecord.outcome).countP p := by rw [h]
    _ = records.countP (fun r => p r.outcome) := List.countP_map ..
    _ = records.countP (fun r => q r.outcome) :=
      List.countP_congr fun r hr => by rw [hpq r hr]

/-- Nothing of Alice is on the wire. -/
theorem wireOf_alice (telemetry : Telemetry)
    (h : ∀ c ∈ loggedCalls parseTs snapshot.callLog alice,
      c.wireSent = 0 ∧ c.wireReceived = 0) :
    (wireOf parseTs snapshot telemetry alice).1 = [] := by
  have hmeasured : ((loggedCalls parseTs snapshot.callLog alice).filter fun c =>
      c.wireSent ≠ 0 || c.wireReceived ≠ 0) = [] := by
    rw [List.filter_eq_nil_iff]
    intro c hc
    obtain ⟨hsent, hreceived⟩ := h c hc
    simp [hsent, hreceived]
  have hsource : (callsOf parseTs snapshot telemetry alice).2 ≠ "telemetry" := by
    rw [callsOf, if_pos rfl]
    dsimp only
    split <;> decide
  simp only [wireOf, hmeasured, if_neg hsource, List.isEmpty_nil, Bool.not_true]
  rfl

/-- **What the report says of Alice.**  When the rows under her name are those of the records, the
    report counts one call for every request that was answered, and for the two directions the sizes
    of just these messages; it puts nothing of hers on the wire, and counts as errors and as empty
    holds what the accounting took for them. -/
theorem alice_reported (tools : List String) (seen : List Observation) (snapshot : Snapshot)
    (hlog : (snapshot.callLog.filter fun row => row.by = alice) =
      (McpAccounting.run tools seen).records.map CallRecord.toRow)
    (telemetry : Telemetry) (tasks : List TaskFigures) (now : Instant) (round : ℚ → ℚ) :
    let f := agentFiguresOf parseTs snapshot telemetry tasks now round alice
    let records := (McpAccounting.run tools seen).records
    (∃ places : List (ℕ × ℕ), places.Pairwise (fun p q => p.1 ≠ q.1 ∧ p.2 < q.2) ∧
      (∀ p, p ∈ places ↔ Correlation.Answers (signals tools seen) p) ∧
      f.calls.total = places.length ∧
      f.bytes.mcpSent = (places.map fun p => (sizeAt seen p.1 : ℤ)).sum ∧
      f.bytes.mcpReceived = (places.map fun p => (sizeAt seen p.2 : ℤ)).sum) ∧
    f.bytes.mcpContext = (records.map fun r => ((r.contentBytes.getD 0 : ℕ) : ℤ)).sum ∧
    f.bytes.a2aSent = 0 ∧ f.bytes.a2aReceived = 0 ∧
    f.errors = records.countP (fun r => r.outcome = "error") ∧
    f.timeouts = records.countP (fun r => r.outcome = "null_event") := by
  intro f records
  obtain ⟨places, hsorted, hplaces, hstand⟩ := paired_places (signals tools seen)
  have haccounts : List.Forall₂ (Accounts tools seen) places records := by
    show List.Forall₂ _ _ (McpAccounting.run tools seen).records
    rw [run_eq]
    exact accounts_of_stand hstand []
  have hcalls : (callsOf parseTs snapshot telemetry alice).1 =
      records.map fun r => r.toRow.toCall parseTs := alice_calls parseTs hlog telemetry
  obtain ⟨hsent, hreceived, hcontent, houtcome, hwire⟩ := accounts_toCall parseTs haccounts
  rw [← hcalls] at hsent hreceived hcontent houtcome hwire
  have hlogged : loggedCalls parseTs snapshot.callLog alice =
      (callsOf parseTs snapshot telemetry alice).1 := by
    rw [callsOf, if_pos rfl]
  have hnone := wireOf_alice parseTs telemetry (hlogged ▸ hwire)
  have hempty : ∀ outcome ∈ ["ok", "event", "null_event", "error"],
      emptyOutcomes.contains outcome = decide (outcome = "null_event") := by decide
  have hlength := congrArg List.length hsent
  rw [List.length_map, List.length_map] at hlength
  refine ⟨⟨places, hsorted, hplaces, hlength, ?_, ?_⟩, ?_, ?_, ?_, ?_, ?_⟩
  · show ((callsOf parseTs snapshot telemetry alice).1.map Report.Call.mcpSent).sum = _
    rw [hsent]
  · show ((callsOf parseTs snapshot telemetry alice).1.map Report.Call.mcpReceived).sum = _
    rw [hreceived]
  · show ((callsOf parseTs snapshot telemetry alice).1.map Report.Call.content).sum = _
    rw [hcontent]
  · show ((wireOf parseTs snapshot telemetry alice).1.map Report.Call.wireSent).sum = 0
    rw [hnone]
    rfl
  · show ((wireOf parseTs snapshot telemetry alice).1.map Report.Call.wireReceived).sum = 0
    rw [hnone]
    rfl
  · show (callsOf parseTs snapshot telemetry alice).1.countP
      (fun c => c.outcome = "error") = _
    exact countP_outcome (fun o => decide (o = "error")) (fun o => decide (o = "error")) houtcome
      fun _ _ => rfl
  · show (callsOf parseTs snapshot telemetry alice).1.countP
      (fun c => emptyOutcomes.contains c.outcome) = _
    refine countP_outcome emptyOutcomes.contains (fun o => decide (o = "null_event")) houtcome
      fun r hr => ?_
    obtain ⟨p, -, ⟨_, m', _, pending, -, -, -, -, ⟨previous, rfl⟩, -⟩⟩ :=
      exists_of_forall₂ haccounts hr
    exact hempty _ (callRecord_outcome_mem previous pending m')

/-- The call log of a run in which Alice read one gate twice, and Bob checked in. -/
def gateLog : Snapshot where
  agent := []
  workflow := none
  callLog := (McpAccounting.run ["check_merge_gate"] gateTwice).records.map CallRecord.toRow ++
    [⟨some "bob", some "check_in", some "ok", "a2a", none, none, some 300, some 200, none⟩]

/-- Both results of the gate are in the context of Alice. -/
theorem alice_reported_gate :
    (agentFiguresOf (fun _ => none) gateLog ⟨[], [], []⟩ [] 0 id alice).bytes.mcpContext
      = 16 := by
  have hlog : (gateLog.callLog.filter fun row => row.by = alice) =
      (McpAccounting.run ["check_merge_gate"] gateTwice).records.map CallRecord.toRow := by rfl
  obtain ⟨-, hcontext, -⟩ := alice_reported (fun _ => none) ["check_merge_gate"] gateTwice gateLog
    hlog ⟨[], [], []⟩ [] 0 id
  rw [hcontext]
  decide +kernel

end

end AgentHub.Accounting
