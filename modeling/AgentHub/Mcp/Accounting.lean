import AgentHub.Calendar.Decimal
import AgentHub.Common.Json
import AgentHub.Common.Models
import AgentHub.Correlation.Pairing
import AgentHub.Diff.Blocks
import AgentHub.Framing.Lines
import Mathlib.Data.List.Lattice

namespace AgentHub.Accounting

open Correlation

/-!
# Accounting for Alice's calls

The hub watches the two directions of the MCP connection and writes one record for every request of
Alice that is answered: how large the two messages were, and which call it was.  What the messages
say is not Alice's alone, so a record has labels of closed sets only, and the text of the previous
result of a tool is kept for one comparison.

* `McpAccounting`, `observe` — what is kept, and what a message does to it;
* `signal` — a message as a request or a response under its id; `run_eq`, the accounting is a
  function of the answered calls;
* `calls_accounted` — the records are those of the answered requests, each counted once;
* `records_closed` — no record says anything but closed labels, ids of the hub and sizes;
* `repeats_counted` — which part of a result counts as repeated.
-/

/-! ### Labels -/

/-- `MCP_METHODS`. -/
def mcpMethods : List String :=
  ["initialize", "tools/list", "ping", "resources/list", "prompts/list"]

/-- `_ID_RE.fullmatch`. -/
def isHubId (s : String) : Bool :=
  s.toList.length == 32 && s.toList.all fun c => ('0' ≤ c && c ≤ '9') || ('a' ≤ c && c ≤ 'f')

/-- `hub_id`. -/
def hubId (value : Option Json) : Option String := (value.bind Json.asStr?).filter isHubId

/-- A request id as the key of a dict. -/
inductive RequestId where
  | text (s : String)
  | int (value : ℤ)
deriving DecidableEq

/-- The integer a literal stands for, if nothing but digits and a sign is written. -/
def intLiteral? (literal : String) : Option ℤ :=
  match literal.toList with
  | '-' :: digits => (Decimal.digitsFrom? 0 digits).map fun n => -(n : ℤ)
  | digits => (Decimal.digitsFrom? 0 digits).map Int.ofNat

/-- `isinstance(request_id, str | int)`.  `bool` is a kind of `int`, and `True` the same key as
    `1`. -/
def RequestId.of? : Json → Option RequestId
  | .str s => some (.text s)
  | .num literal => (intLiteral? literal).map .int
  | .bool b => some (.int (if b then 1 else 0))
  | .null | .arr _ | .obj _ => none

example : RequestId.of? (.num "-0") = some (.int 0) ∧ RequestId.of? (.num "1.0") = none := by
  decide

/-! ### Texts -/

/-- `len(text.encode("utf-8"))`. -/
def textBytes : List Char → ℕ
  | [] => 0
  | c :: text => c.utf8Size + textBytes text

/-- `text.splitlines(keepends=True)`. -/
def splitLines (text : String) : List (List Char) :=
  Framing.splitlines true isLineBoundary '\r' '\n' text.toList

/-- `_content_text`. -/
def contentText (result : List (String × Json)) : Option String :=
  match result.lookup "content" with
  | some (.arr items) =>
    let texts := items.filterMap fun block => (block.get? "text").bind Json.asStr?
    if texts = [] then none else some (String.join texts)
  | _ => none

/-- `_mcp_outcome`. -/
def mcpOutcome (tool : String) (result : List (String × Json)) : String :=
  if result.lookup "isError" = some (.bool true) then "error"
  else if tool = "wait_for_event" then
    match result.lookup "structuredContent" with
    | some (.obj structured) =>
      if (structured.lookup "event").getD .null = .null then "null_event" else "event"
    | _ => "ok"
  else "ok"

/-! ### The records -/

/-- `CallRecord`. -/
structure CallRecord where
  boundary : String
  actor : String
  tool : String
  outcome : String
  bytesIn : ℕ
  bytesOut : ℕ
  started : String
  finished : String
  status : Option ℕ := none
  contentBytes : Option ℕ := none
  repeatBytes : Option ℕ := none
  taskId : Option String := none
deriving DecidableEq

/-- `_PendingMcp`. -/
structure PendingMcp where
  tool : String
  bytesIn : ℕ
  started : String
  taskId : Option String
deriving DecidableEq

/-- A message that is an object, with its size on the pipe and the time it was seen. -/
structure Message where
  payload : List (String × Json)
  size : ℕ
  now : String

/-- `payload["result"]`, if it is an object. -/
def Message.result? (m : Message) : Option (List (String × Json)) :=
  match m.payload.lookup "result" with
  | some (.obj result) => some result
  | _ => none

/-- The text content of a result. -/
def Message.text? (m : Message) : Option String := m.result?.bind contentText

/-- `_repeat`: the bytes of the lines that match the previous result. -/
def repeatedBytes (previous : Option (List (List Char))) (lines : List (List Char)) : ℕ :=
  match previous with
  | none => 0
  | some previous => textBytes (Diff.blocks previous lines).flatten.flatten

/-- The id of the request, and what is kept of it until it is answered. -/
def requested (tools : List String) (m : Message) : Option (RequestId × PendingMcp) :=
  match (m.payload.lookup "id").bind RequestId.of?, m.payload.lookup "method" with
  | some id, some (.str method) =>
    let params := (m.payload.lookup "params").getD .null
    if method = "tools/call" then
      let name := ((params.get? "name").bind Json.asStr?).filter fun name => tools.contains name
      let taskId := ((params.get? "arguments").bind fun given => hubId (given.get? "task_id"))
      some (id, ⟨name.getD "unknown", m.size, m.now, taskId⟩)
    else
      some (id, ⟨if mcpMethods.contains method then method else "other", m.size, m.now, none⟩)
  | _, _ => none

/-- The id a response names. -/
def answered (m : Message) : Option RequestId :=
  if (m.payload.lookup "method").isSome then none
  else (m.payload.lookup "id").bind RequestId.of?

/-- The record of a request and its response, given the lines of the previous result. -/
def callRecord (previous : Option (List (List Char))) (pending : PendingMcp) (m : Message) :
    CallRecord where
  boundary := "mcp"
  actor := alice
  tool := pending.tool
  outcome := (m.result?.map fun result => mcpOutcome pending.tool result).getD "error"
  bytesIn := pending.bytesIn
  bytesOut := m.size
  started := pending.started
  finished := m.now
  contentBytes := m.text?.map fun text => textBytes text.toList
  repeatBytes := m.text?.map fun text => repeatedBytes previous (splitLines text)
  taskId :=
    let structured := m.result?.bind fun result => result.lookup "structuredContent"
    if pending.tool = "assign_task" then
      (structured.bind fun value => hubId (value.get? "id")).or pending.taskId
    else pending.taskId

/-! ### What is kept -/

/-- `McpAccounting`, with the records it has handed to `accounting.record`. -/
structure McpAccounting where
  pending : RequestId → Option PendingMcp := fun _ => none
  previous : String → Option (List (List Char)) := fun _ => none
  records : List CallRecord := []

/-- What is seen of the connection: a line read from Alice, or one written to her. -/
inductive Observation where
  | request (m : Message)
  | response (m : Message)

namespace McpAccounting

/-- `observe_request`. -/
def observeRequest (tools : List String) (self : McpAccounting) (m : Message) : McpAccounting :=
  match requested tools m with
  | none => self
  | some (id, pending) =>
    { self with pending := Function.update self.pending id (some pending) }

/-- `observe_response`. -/
def observeResponse (self : McpAccounting) (m : Message) : McpAccounting :=
  match answered m with
  | none => self
  | some id =>
    match self.pending id with
    | none => self
    | some pending =>
      { pending := Function.update self.pending id none
        previous :=
          match m.text? with
          | none => self.previous
          | some text => Function.update self.previous pending.tool (some (splitLines text))
        records := self.records ++ [callRecord (self.previous pending.tool) pending m] }

/-- A message on either pipe. -/
def observe (tools : List String) (self : McpAccounting) : Observation → McpAccounting
  | .request m => self.observeRequest tools m
  | .response m => self.observeResponse m

/-- The accounting after all that was seen. -/
def run (tools : List String) (seen : List Observation) : McpAccounting :=
  seen.foldl (observe tools) {}

end McpAccounting

/-! ### The messages as signals -/

/-- A message as a request or a response under its id. -/
def signal (tools : List String) : Observation → Signal RequestId PendingMcp Message
  | .request m =>
    match requested tools m with
    | none => .other
    | some (id, pending) => .opens id pending
  | .response m =>
    match answered m with
    | none => .other
    | some id => .closes id m

/-- What was seen, as signals. -/
def signals (tools : List String) (seen : List Observation) :
    List (Signal RequestId PendingMcp Message) :=
  seen.map (signal tools)

/-- A request with the response that answered it. -/
abbrev AnsweredCall := PendingMcp × Message

/-- The lines of the last result of a tool that had a text. -/
def lastLines (calls : List AnsweredCall) (tool : String) : Option (List (List Char)) :=
  ((calls.filter fun call => call.1.tool = tool).filterMap fun call => call.2.text?).getLast?.map
    splitLines

/-- The records of calls, given those before. -/
def recordsAfter (before : List AnsweredCall) : List AnsweredCall → List CallRecord
  | [] => []
  | call :: calls =>
    callRecord (lastLines before call.1.tool) call.1 call.2 :: recordsAfter (before ++ [call]) calls

/-- The accounting after a call is answered, but for what is pending. -/
def McpAccounting.complete (self : McpAccounting) : Option AnsweredCall → McpAccounting
  | none => self
  | some (pending, m) =>
    { self with
      previous :=
        match m.text? with
        | none => self.previous
        | some text => Function.update self.previous pending.tool (some (splitLines text))
      records := self.records ++ [callRecord (self.previous pending.tool) pending m] }

section

variable {tools : List String}

/-- **A message is a signal**: what it does to the accounting, it does as one. -/
theorem observe_eq (self : McpAccounting) (o : Observation) :
    self.observe tools o =
      { self.complete (completes self.pending (signal tools o)) with
        pending := follow self.pending (signal tools o) } := by
  cases o with
  | request m =>
    show self.observeRequest tools m = _
    rw [McpAccounting.observeRequest, signal]
    cases requested tools m <;> rfl
  | response m =>
    show self.observeResponse m = _
    rw [McpAccounting.observeResponse, signal]
    cases answered m with
    | none => rfl
    | some id =>
      dsimp only [completes, follow]
      cases hpending : self.pending id with
      | none =>
        -- nothing is pending under the id, so nothing is forgotten
        have hsame : Function.update self.pending id none = self.pending :=
          Function.update_eq_self_iff.mpr hpending.symm
        rw [hsame]
        rfl
      | some pending => rfl

/-- The records of more calls come after, each compared with what was answered before it. -/
theorem recordsAfter_append (before calls later : List AnsweredCall) :
    recordsAfter before (calls ++ later) =
      recordsAfter before calls ++ recordsAfter (before ++ calls) later := by
  induction calls generalizing before with
  | nil =>
    rw [List.append_nil]
    rfl
  | cons call calls ih =>
    show _ :: recordsAfter (before ++ [call]) (calls ++ later) = _
    rw [ih, List.append_assoc]
    rfl

/-- A result with a text is the last one of its tool from then on. -/
theorem lastLines_snoc (calls : List AnsweredCall) (pending : PendingMcp) (m : Message) :
    lastLines (calls ++ [(pending, m)]) =
      (McpAccounting.complete { previous := lastLines calls } (some (pending, m))).previous := by
  funext tool
  have hfilter : ((calls ++ [(pending, m)]).filter fun call => call.1.tool = tool) =
      calls.filter (fun call => call.1.tool = tool) ++
        if pending.tool = tool then [(pending, m)] else [] := by
    rw [List.filter_append, List.filter_singleton]
    by_cases htool : pending.tool = tool <;> simp [htool]
  rw [lastLines, hfilter, List.filterMap_append]
  by_cases htool : pending.tool = tool
  · subst htool
    rw [if_pos rfl]
    cases htext : m.text? with
    | none => simp [McpAccounting.complete, htext, lastLines]
    | some text => simp [McpAccounting.complete, htext]
  · rw [if_neg htool, List.filterMap_nil, List.append_nil]
    cases htext : m.text? with
    | none => simp [McpAccounting.complete, htext, lastLines]
    | some text =>
      simp only [McpAccounting.complete, htext]
      rw [Function.update_of_ne (fun h => htool h.symm)]
      rfl

/-- **The accounting is a function of the answered calls**: what is pending is what is open, and
    the records and the texts that are kept are those of the calls that were answered. -/
theorem run_eq (seen : List Observation) :
    McpAccounting.run tools seen =
      { pending := opened (signals tools seen)
        previous := lastLines (paired (signals tools seen))
        records := recordsAfter [] (paired (signals tools seen)) } := by
  induction seen using List.reverseRecOn with
  | nil => rfl
  | append_singleton seen o ih =>
    have hrun : McpAccounting.run tools (seen ++ [o]) =
        (McpAccounting.run tools seen).observe tools o := by
      rw [McpAccounting.run, List.foldl_append]
      rfl
    have hsignals : signals tools (seen ++ [o]) = signals tools seen ++ [signal tools o] := by
      rw [signals, List.map_append]
      rfl
    rw [hrun, ih, observe_eq, hsignals, opened_snoc, paired_snoc]
    generalize opened (signals tools seen) = open', paired (signals tools seen) = calls
    show McpAccounting.mk (follow open' (signal tools o)) _ _ = _
    cases completes open' (signal tools o) with
    | none =>
      rw [Option.toList_none, List.append_nil]
      rfl
    | some call =>
      obtain ⟨pending, m⟩ := call
      rw [Option.toList_some, recordsAfter_append, lastLines_snoc]
      rfl

/-! ### One record for every answered request -/

/-- A request opens a call with its size and its time. -/
theorem requested_seen {m : Message} {id : RequestId} {pending : PendingMcp}
    (h : requested tools m = some (id, pending)) :
    pending.bytesIn = m.size ∧ pending.started = m.now := by
  unfold requested at h
  split at h
  · split at h
    · cases h
      exact ⟨rfl, rfl⟩
    · cases h
      exact ⟨rfl, rfl⟩
  · cases h

/-- The record is of the request and the response that were seen at two places. -/
structure Accounts (tools : List String) (seen : List Observation) (p : ℕ × ℕ) (r : CallRecord) :
    Prop where
  seen : ∃ m m' id pending, seen[p.1]? = some (.request m) ∧ seen[p.2]? = some (.response m') ∧
    requested tools m = some (id, pending) ∧ answered m' = some id ∧
    (∃ previous, r = callRecord previous pending m') ∧ r.bytesIn = m.size ∧ r.started = m.now ∧
    r.bytesOut = m'.size ∧ r.finished = m'.now

/-- An opening signal comes from a request seen. -/
theorem signals_opens {seen : List Observation} {n : ℕ} {id : RequestId} {pending : PendingMcp}
    (h : (signals tools seen)[n]? = some (.opens id pending)) :
    ∃ m, seen[n]? = some (.request m) ∧ requested tools m = some (id, pending) := by
  rw [signals, List.getElem?_map] at h
  obtain ⟨o, ho, h⟩ := Option.map_eq_some_iff.mp h
  cases o with
  | request m =>
    rw [signal] at h
    cases hrequested : requested tools m with
    | none =>
      rw [hrequested] at h
      cases h
    | some call =>
      rw [hrequested] at h
      obtain ⟨rfl, rfl⟩ := Signal.opens.inj h
      exact ⟨m, ho, hrequested⟩
  | response m =>
    rw [signal] at h
    cases hanswered : answered m <;> rw [hanswered] at h <;> cases h

/-- A closing signal comes from a response seen. -/
theorem signals_closes {seen : List Observation} {n : ℕ} {id : RequestId} {m : Message}
    (h : (signals tools seen)[n]? = some (.closes id m)) :
    seen[n]? = some (.response m) ∧ answered m = some id := by
  rw [signals, List.getElem?_map] at h
  obtain ⟨o, ho, h⟩ := Option.map_eq_some_iff.mp h
  cases o with
  | request m =>
    rw [signal] at h
    cases hrequested : requested tools m <;> rw [hrequested] at h <;> cases h
  | response m' =>
    rw [signal] at h
    cases hanswered : answered m' with
    | none =>
      rw [hanswered] at h
      cases h
    | some id' =>
      rw [hanswered] at h
      obtain ⟨rfl, rfl⟩ := Signal.closes.inj h
      exact ⟨ho, hanswered⟩

/-- Calls that stand in the traffic are accounted for by their records. -/
theorem accounts_of_stand {seen : List Observation} {places : List (ℕ × ℕ)}
    {calls : List AnsweredCall} (h : List.Forall₂ (StandAt (signals tools seen)) places calls)
    (before : List AnsweredCall) :
    List.Forall₂ (Accounts tools seen) places (recordsAfter before calls) := by
  induction h generalizing before with
  | nil => exact List.Forall₂.nil
  | @cons p call places calls hstand _ ih =>
    refine List.Forall₂.cons ⟨?_⟩ (ih (before ++ [call]))
    obtain ⟨id, hrequest, hresponse⟩ := hstand
    obtain ⟨m, hm, hrequested⟩ := signals_opens hrequest
    obtain ⟨hm', hanswered⟩ := signals_closes hresponse
    obtain ⟨hsize, hnow⟩ := requested_seen hrequested
    exact ⟨m, call.2, id, call.1, hm, hm', hrequested, hanswered, ⟨_, rfl⟩, hsize, hnow, rfl, rfl⟩

/-- **Every answered request is counted once.**  Whatever crosses the two pipes in whatever order,
    the records stand, in the order of the responses, for the requests that were answered: the
    requests and responses with one id and nothing under it between them.  Each has the tool, the
    sizes and the times of its two messages, and no message is counted twice. -/
theorem calls_accounted (tools : List String) (seen : List Observation) :
    ∃ places : List (ℕ × ℕ), places.Pairwise (fun p q => p.1 ≠ q.1 ∧ p.2 < q.2) ∧
      (∀ p, p ∈ places ↔ Answers (signals tools seen) p) ∧
      List.Forall₂ (Accounts tools seen) places (McpAccounting.run tools seen).records := by
  obtain ⟨places, hsorted, hplaces, hstand⟩ := paired_places (signals tools seen)
  rw [run_eq]
  exact ⟨places, hsorted, hplaces, accounts_of_stand hstand []⟩

/-! ### What a record says -/

/-- What is in the second list has its partner in the first. -/
theorem exists_of_forall₂ {α β : Type*} {R : α → β → Prop} {as : List α} {bs : List β} {b : β}
    (h : List.Forall₂ R as bs) (hb : b ∈ bs) : ∃ a ∈ as, R a b := by
  induction h with
  | nil => cases hb
  | cons hR _ ih =>
    rcases List.mem_cons.mp hb with rfl | hb
    · exact ⟨_, List.mem_cons_self, hR⟩
    · obtain ⟨a, ha, hab⟩ := ih hb
      exact ⟨a, List.mem_cons_of_mem _ ha, hab⟩

/-- The bytes of two texts together. -/
theorem textBytes_append (text text' : List Char) :
    textBytes (text ++ text') = textBytes text + textBytes text' := by
  induction text with
  | nil => rw [List.nil_append, textBytes, Nat.zero_add]
  | cons c text ih => rw [List.cons_append, textBytes, textBytes, ih, Nat.add_assoc]

/-- Fewer lines are no more bytes. -/
theorem textBytes_flatten_le {lines lines' : List (List Char)} (h : lines.Sublist lines') :
    textBytes lines.flatten ≤ textBytes lines'.flatten := by
  induction h with
  | slnil => exact Nat.le_refl _
  | cons line _ ih =>
    rw [List.flatten_cons, textBytes_append]
    omega
  | cons_cons line _ ih =>
    rw [List.flatten_cons, List.flatten_cons, textBytes_append, textBytes_append]
    omega

/-- The lines of a text are the text. -/
theorem splitLines_flatten (text : String) : (splitLines text).flatten = text.toList :=
  Framing.flatten_endedLines isLineBoundary '\r' '\n' [] text.toList

/-- No line is empty: it has its end, or it is the last one. -/
theorem splitLines_ne_nil (text : String) : ∀ l ∈ splitLines text, l ≠ [] := by
  intro l hl
  obtain ⟨p, hp, rfl⟩ := List.mem_map.mp hl
  exact Framing.endedLines_ne_nil isLineBoundary '\r' '\n' [] text.toList p hp

/-- Which labels a record may have, and which sizes. -/
structure CallRecord.Closed (tools : List String) (r : CallRecord) : Prop where
  boundary : r.boundary = "mcp"
  actor : r.actor = alice
  tool : r.tool ∈ tools ++ mcpMethods ++ ["unknown", "other"]
  outcome : r.outcome ∈ ["ok", "event", "null_event", "error"]
  taskId : ∀ id ∈ r.taskId, isHubId id = true
  content : r.contentBytes.isSome = r.repeatBytes.isSome
  repeated : ∀ n ∈ r.repeatBytes, ∀ c ∈ r.contentBytes, n ≤ c

/-- An id the record keeps is one of the hub's. -/
theorem isHubId_of_hubId {value : Option Json} {id : String} (h : id ∈ hubId value) :
    isHubId id = true := (Option.filter_eq_some_iff.mp h).2

/-- The outcome of a call is one of four words. -/
theorem mcpOutcome_mem (tool : String) (result : List (String × Json)) :
    mcpOutcome tool result ∈ ["ok", "event", "null_event", "error"] := by
  unfold mcpOutcome
  split
  · simp
  · split
    · split
      · split <;> simp
      · simp
    · simp

/-- The outcome recorded is one of four words. -/
theorem callRecord_outcome_mem (previous : Option (List (List Char))) (pending : PendingMcp)
    (m : Message) :
    (callRecord previous pending m).outcome ∈ ["ok", "event", "null_event", "error"] := by
  show (m.result?.map fun result => mcpOutcome pending.tool result).getD "error" ∈ _
  cases m.result? with
  | none => simp
  | some result => exact mcpOutcome_mem pending.tool result

/-- What is kept of a request has a label of the closed set, and no id but one of the hub's. -/
theorem requested_closed {m : Message} {id : RequestId} {pending : PendingMcp}
    (h : requested tools m = some (id, pending)) :
    pending.tool ∈ tools ++ mcpMethods ++ ["unknown", "other"] ∧
      ∀ taskId ∈ pending.taskId, isHubId taskId = true := by
  unfold requested at h
  split at h
  · split at h
    · cases h
      refine ⟨?_, fun taskId htask => ?_⟩
      · generalize ((m.payload.lookup "params").getD .null).get? "name" = name
        cases hname : (name.bind Json.asStr?).filter fun name => tools.contains name with
        | none => simp
        | some name =>
          have hmem := (Option.filter_eq_some_iff.mp hname).2
          rw [List.contains_iff_mem] at hmem
          simp [hmem]
      · obtain ⟨given, -, hgiven⟩ := Option.bind_eq_some_iff.mp htask
        exact isHubId_of_hubId hgiven
    · cases h
      refine ⟨?_, fun taskId htask => by cases htask⟩
      dsimp only
      split
      · next hmethod =>
        rw [List.contains_iff_mem] at hmethod
        simp [hmethod]
      · simp
  · cases h

/-- No more bytes are counted as repeated than there are. -/
theorem repeatedBytes_le (previous : Option (List (List Char))) (lines : List (List Char)) :
    repeatedBytes previous lines ≤ textBytes lines.flatten := by
  cases previous with
  | none => exact Nat.zero_le _
  | some previous => exact textBytes_flatten_le (Diff.blocks_sublist previous lines).2

/-- A record of a call holds closed labels, hub ids and sizes only. -/
theorem callRecord_closed {m m' : Message} {id : RequestId} {pending : PendingMcp}
    (h : requested tools m = some (id, pending)) (previous : Option (List (List Char))) :
    (callRecord previous pending m').Closed tools where
  boundary := rfl
  actor := rfl
  tool := (requested_closed h).1
  outcome := callRecord_outcome_mem previous pending m'
  taskId := by
    intro taskId htask
    simp only [callRecord] at htask
    split at htask
    · rcases Option.or_eq_some_iff.mp htask with hid | ⟨-, hid⟩
      · obtain ⟨structured, -, hid⟩ := Option.bind_eq_some_iff.mp hid
        exact isHubId_of_hubId hid
      · exact (requested_closed h).2 taskId hid
    · exact (requested_closed h).2 taskId htask
  content := by
    show (m'.text?.map _).isSome = (m'.text?.map _).isSome
    rw [Option.isSome_map, Option.isSome_map]
  repeated := by
    intro n hn c hc
    obtain ⟨text, htext, rfl⟩ := Option.map_eq_some_iff.mp hn
    obtain ⟨text', htext', rfl⟩ := Option.map_eq_some_iff.mp hc
    obtain rfl := Option.some.inj (htext.symm.trans htext')
    have hle := repeatedBytes_le previous (splitLines text)
    rwa [splitLines_flatten] at hle

/-- **A record says nothing of what the messages say.**  Whatever crosses the two pipes, a record
    has labels of closed sets, no id but one of the hub's, and no more repeated bytes than
    content. -/
theorem records_closed (tools : List String) (seen : List Observation) {r : CallRecord}
    (h : r ∈ (McpAccounting.run tools seen).records) : r.Closed tools := by
  obtain ⟨places, -, -, hstand⟩ := paired_places (signals tools seen)
  rw [run_eq] at h
  obtain ⟨p, -, hp⟩ := exists_of_forall₂ (accounts_of_stand hstand []) h
  obtain ⟨m, m', id, pending, -, -, hrequested, -, ⟨previous, rfl⟩, -⟩ := hp.seen
  exact callRecord_closed hrequested previous

/-- Alice reads one gate twice, with the same result, and lists the tools. -/
def gateTwice : List Observation :=
  let call (id : String) : Observation := .request
    ⟨[("id", .num id), ("method", .str "tools/call"),
      ("params", .obj [("name", .str "check_merge_gate")])], 120, "12:00"⟩
  let result (id : String) : Observation := .response
    ⟨[("id", .num id), ("result", .obj [("content",
      .arr [.obj [("type", .str "text"), ("text", .str "ci\nopen\n")]])])], 80, "12:01"⟩
  [call "1", .request ⟨[("id", .str "a"), ("method", .str "tools/list")], 60, "12:00"⟩, result "1",
    result "1", call "2", result "2"]

/-- The second result of the gate has closed labels as well. -/
theorem records_closed_gate : ∃ r ∈ (McpAccounting.run ["check_merge_gate"] gateTwice).records,
    r.repeatBytes = some 8 ∧ r.Closed ["check_merge_gate"] := by
  obtain ⟨r, hr, hrepeat⟩ : ∃ r ∈ (McpAccounting.run ["check_merge_gate"] gateTwice).records,
      r.repeatBytes = some 8 := by decide +kernel
  exact ⟨r, hr, hrepeat, records_closed ["check_merge_gate"] gateTwice hr⟩

/-! ### What is repeated -/

/-- Each record compares its call with the last answer of the same tool before it. -/
theorem recordsAfter_getElem? (before calls : List AnsweredCall) (n : ℕ) :
    (recordsAfter before calls)[n]? = calls[n]?.map fun call =>
      callRecord (lastLines (before ++ calls.take n) call.1.tool) call.1 call.2 := by
  induction calls generalizing before n with
  | nil => rfl
  | cons call calls ih =>
    cases n with
    | zero =>
      rw [List.take_zero, List.append_nil]
      rfl
    | succ n =>
      show (recordsAfter (before ++ [call]) calls)[n]? = _
      rw [ih, List.getElem?_cons_succ, List.take_succ_cons, List.append_assoc]
      rfl

/-- Lines that are not empty have bytes. -/
theorem textBytes_flatten_eq_zero {lines : List (List Char)} (h : ∀ l ∈ lines, l ≠ []) :
    textBytes lines.flatten = 0 ↔ lines = [] := by
  cases lines with
  | nil => exact ⟨fun _ => rfl, fun _ => rfl⟩
  | cons line lines =>
    constructor
    · intro hzero
      cases line with
      | nil => exact absurd rfl (h [] List.mem_cons_self)
      | cons c line =>
        have hpos := c.utf8Size_pos
        have hsum : textBytes ((c :: line) :: lines).flatten =
            c.utf8Size + textBytes (line ++ lines.flatten) := rfl
        omega
    · intro hnil
      cases hnil

/-- **What is repeated.**  In every run, the first result of a tool repeats nothing; a later one
    repeats lines that it has in common with the last result of the tool, in the order they have in
    both; nothing only when no line is in both, and everything when nothing has changed. -/
theorem repeats_counted (tools : List String) (seen : List Observation) (n : ℕ)
    {call : AnsweredCall} {text : String} (h : (paired (signals tools seen))[n]? = some call)
    (htext : call.2.text? = some text) :
    ∃ r, (McpAccounting.run tools seen).records[n]? = some r ∧
      r.contentBytes = some (textBytes text.toList) ∧
      (lastLines ((paired (signals tools seen)).take n) call.1.tool = none →
        r.repeatBytes = some 0) ∧
      ∀ old, lastLines ((paired (signals tools seen)).take n) call.1.tool = some old →
        (∃ common : List (List Char), common.Sublist old ∧ common.Sublist (splitLines text) ∧
          r.repeatBytes = some (textBytes common.flatten)) ∧
        (r.repeatBytes = some 0 ↔ old.Disjoint (splitLines text)) ∧
        (old = splitLines text → r.repeatBytes = r.contentBytes) := by
  refine ⟨callRecord (lastLines ((paired (signals tools seen)).take n) call.1.tool) call.1 call.2,
    ?_, ?_, fun hfirst => ?_, fun old hold => ⟨?_, ?_, ?_⟩⟩
  · rw [run_eq, recordsAfter_getElem?, h]
    rfl
  · simp only [callRecord, htext, Option.map_some]
  · simp only [callRecord, htext, Option.map_some, hfirst, repeatedBytes]
  · obtain ⟨hleft, hright⟩ := Diff.blocks_sublist old (splitLines text)
    refine ⟨_, hleft, hright, ?_⟩
    simp only [callRecord, htext, Option.map_some, hold, repeatedBytes]
  · simp only [callRecord, htext, Option.map_some, hold, repeatedBytes,
      Option.some.injEq]
    rw [← Diff.blocks_eq_nil]
    apply textBytes_flatten_eq_zero
    intro l hl
    exact splitLines_ne_nil text l
      ((Diff.blocks_sublist old (splitLines text)).2.subset hl)
  · rintro rfl
    simp only [callRecord, htext, Option.map_some, hold, repeatedBytes,
      Diff.blocks_self, splitLines_flatten]

/-- The second result of the gate repeats all of the first. -/
theorem repeats_counted_gate :
    ∃ r, (McpAccounting.run ["check_merge_gate"] gateTwice).records[1]? = some r ∧
      r.repeatBytes = r.contentBytes := by
  obtain ⟨call, hcall, text, htext, hlast⟩ : ∃ call,
      (paired (signals ["check_merge_gate"] gateTwice))[1]? = some call ∧
      ∃ text, call.2.text? = some text ∧
        lastLines ((paired (signals ["check_merge_gate"] gateTwice)).take 1) call.1.tool =
          some (splitLines text) := ⟨_, rfl, _, rfl, rfl⟩
  obtain ⟨r, hr, -, -, hlater⟩ := repeats_counted ["check_merge_gate"] gateTwice 1 hcall htext
  exact ⟨r, hr, (hlater _ hlast).2.2 rfl⟩

end

end AgentHub.Accounting
