import AgentHub.Common.Dumps
import AgentHub.Framing.Lines
import AgentHub.MergeGate.Report

namespace AgentHub

open Framing

/-!
# Server-sent events

The one event a held call is answered with: the hub writes it, the worker's client reads it from
the lines of the response.

* `successBody`, `sse` — `_success_body` and `_sse` of the hub;
* `splitlines` — the lines of a text, at every line boundary of Unicode;
* `streamResult` — the loop over the lines in `_stream_rpc`;
* `sse_round_trip` — the client gets the result of the body, from one event, however the network
  cuts the bytes.
-/

/-! ### The hub's side -/

/-- `_success_body`, with `exclude_none`: a request without an id has none in its answer. -/
def successBody (requestId : Option Json) (result : Json) : Json :=
  .obj ((requestId.map fun id => ("id", id)).toList ++
    [("jsonrpc", .str "2.0"), ("result", result)])

/-- `_sse`. -/
def sse (chunk : Json) : Bytes := encodeUtf8 ("data: " ++ chunk.dumps ++ "\n\n")

/-! ### The client's side -/

/-- `str.splitlines()`. -/
def splitlines (text : String) : List String :=
  (Framing.splitlines false isLineBoundary '\r' '\n' text.toList).map String.ofList

/-- `text.startswith(start)`. -/
def startsWith (start text : String) : Bool := start.toList.isPrefixOf text.toList

/-- `text.removeprefix(start)`. -/
def removePrefix (start text : String) : String :=
  if startsWith start text then String.ofList (text.toList.drop start.toList.length) else text

/-- The exceptions that end the loop: a `WorkerProtocolError`, or what `json.loads` raised. -/
inductive StreamError where
  | protocol (code : Option Json) (message : Json)
  | loads (text : String)

/-- `err.get("code")` and `err.get("message", …)` of an error object, `str(err)` of another one. -/
def StreamError.ofError (str : String → String) (err : Json) : StreamError :=
  match err with
  | .obj fields =>
    .protocol (fields.lookup "code")
      ((fields.lookup "message").getD (.str "Unknown JSON-RPC error"))
  | _ => .protocol none (.str (err.pyStr str))

/-- The loop over the lines in `_stream_rpc`, given `repr` of a string and `json.loads`: its result
    and the lines it has left. -/
def streamResult (str : String → String) (loads : String → Loaded) :
    List String → Except StreamError Json × List String
  | [] => (.error (.protocol none (.str "SSE stream closed without delivering a data event")), [])
  | line :: rest =>
    let line := strip line
    if startsWith "data:" line then
      let raw := strip (removePrefix "data:" line)
      if raw = "" then streamResult str loads rest
      else
        match loads raw with
        | .value (.obj fields) =>
          match fields.lookup "error" with
          | some err => (.error (.ofError str err), rest)
          | none => (.ok ((fields.lookup "result").getD .null), rest)
        | .value _ => (.error (.protocol none (.str "SSE chunk was not a JSON object")), rest)
        | _ => (.error (.loads raw), rest)
    else streamResult str loads rest

/-! ### What a text of printable characters survives -/

/-- A printable character ends no line. -/
theorem isLineBoundary_printable {c : Char} (h : isPrintable c = true) :
    isLineBoundary c = false := by
  simp only [isPrintable, Bool.and_eq_true, decide_eq_true_eq] at h
  simp only [isLineBoundary, Bool.or_eq_false_iff, Bool.and_eq_false_iff, decide_eq_false_iff_not,
    beq_eq_false_iff_ne]
  omega

/-- `strip` leaves a text alone that neither begins nor ends in white space. -/
theorem strip_between {first last : Char} (hfirst : isSpace first = false)
    (hlast : isSpace last = false) (inner : List Char) :
    strip (String.ofList (first :: (inner ++ [last]))) =
      String.ofList (first :: (inner ++ [last])) := by
  have hleft : (first :: (inner ++ [last])).dropWhile isSpace = first :: (inner ++ [last]) :=
    List.dropWhile_cons_of_neg (by simp [hfirst])
  have hright : (first :: (inner ++ [last])).rdropWhile isSpace = first :: (inner ++ [last]) := by
    rw [← List.cons_append, List.rdropWhile_concat_neg _ _ _ (by simp [hlast])]
  rw [strip, String.toList_ofList, hleft, hright]

/-- The lines of an event: the data line and the empty one that ends the event. -/
theorem splitlines_event {data : String} (h : Printable data.toList) :
    splitlines ("data: " ++ data ++ "\n\n") = ["data: " ++ data, ""] := by
  have hline : ∀ c ∈ ("data: " ++ data).toList, isLineBoundary c = false := by
    intro c hc
    rw [String.toList_append] at hc
    exact isLineBoundary_printable (Printable.append (by decide) h c hc)
  have htext : ("data: " ++ data ++ "\n\n").toList =
      ("data: " ++ data).toList ++ '\n' :: ['\n'] := by
    rw [String.toList_append]
    rfl
  have hlines := endedLines_line '\n' (by decide) (show '\n' ≠ '\r' by decide) hline
    (by decide) [] ['\n']
  rw [splitlines, Framing.splitlines, htext, hlines, List.nil_append]
  show [String.ofList ("data: " ++ data).toList, ""] = _
  rw [String.ofList_toList]

/-- A blank in front is stripped. -/
theorem strip_blank (text : List Char) :
    strip (String.ofList (' ' :: text)) = strip (String.ofList text) := by
  have hblank : (' ' :: text).dropWhile isSpace = text.dropWhile isSpace :=
    List.dropWhile_cons_of_pos (by decide)
  rw [strip, strip, String.toList_ofList, String.toList_ofList, hblank]

/-- A data line whose data stands between braces is not stripped. -/
theorem strip_dataLine (inner : List Char) :
    strip ("data: " ++ String.ofList ('\x7b' :: (inner ++ ['\x7d']))) =
      "data: " ++ String.ofList ('\x7b' :: (inner ++ ['\x7d'])) := by
  have hline : "data: " ++ String.ofList ('\x7b' :: (inner ++ ['\x7d'])) =
      String.ofList ('d' :: ("ata: \x7b".toList ++ inner ++ ['\x7d'])) := by
    apply String.toList_injective
    simp
  rw [hline, strip_between (by decide) (by decide)]

/-- A data line starts with its field's name. -/
theorem startsWith_dataLine (data : String) : startsWith "data:" ("data: " ++ data) = true := by
  rw [startsWith, String.toList_append]
  rfl

/-- The data of a data line, when it stands between braces. -/
theorem strip_removePrefix (inner : List Char) :
    strip (removePrefix "data:" ("data: " ++ String.ofList ('\x7b' :: (inner ++ ['\x7d'])))) =
      String.ofList ('\x7b' :: (inner ++ ['\x7d'])) := by
  have hdrop : ("data: " ++ String.ofList ('\x7b' :: (inner ++ ['\x7d']))).toList.drop
      "data:".toList.length = ' ' :: '\x7b' :: (inner ++ ['\x7d']) := by
    simp
  rw [removePrefix, if_pos (startsWith_dataLine _), hdrop, strip_blank,
    strip_between (by decide) (by decide)]

/-! ### The round trip -/

variable (str : String → String) (loads : String → Loaded)

/-- The loop takes the result from the data line of a body that `json.loads` reads back. -/
theorem streamResult_event {fields : List (String × Json)}
    (hloads : loads (Json.obj fields).dumps = .value (.obj fields))
    (herror : fields.lookup "error" = none) (rest : List String) :
    streamResult str loads (("data: " ++ (Json.obj fields).dumps) :: rest) =
      (.ok ((fields.lookup "result").getD .null), rest) := by
  have hdumps : (Json.obj fields).dumps =
      String.ofList ('\x7b' :: ([',', ' '].intercalate (Json.dumpsFields fields) ++ ['\x7d'])) := by
    rw [Json.dumps, Json.dumpsChars_obj]
  have hne : (Json.obj fields).dumps ≠ "" := by
    rw [hdumps]
    intro h
    simpa using congrArg String.toList h
  have hstrip : strip ("data: " ++ (Json.obj fields).dumps) =
      "data: " ++ (Json.obj fields).dumps := by
    rw [hdumps, strip_dataLine]
  have hraw : strip (removePrefix "data:" ("data: " ++ (Json.obj fields).dumps)) =
      (Json.obj fields).dumps := by
    rw [hdumps, strip_removePrefix]
  simp only [streamResult, hstrip, startsWith_dataLine, hraw, if_true, if_neg hne, hloads, herror]

/-- **The events round trip.** However the bytes of an event are cut, the client gets the result of
    its body, from the only data line there is; the line that ends the event stays unread. -/
theorem sse_round_trip (aiterLines : List Bytes → List String)
    (hlines : ∀ chunks text, chunks.flatten = encodeUtf8 text → aiterLines chunks = splitlines text)
    (requestId : Option Json) (result : Json)
    (hnumbers : ∀ literal ∈ (successBody requestId result).numbers, Printable literal.toList)
    (hloads : loads (successBody requestId result).dumps = .value (successBody requestId result))
    (chunks : List Bytes) (hchunks : chunks.flatten = sse (successBody requestId result)) :
    streamResult str loads (aiterLines chunks) = (.ok result, [""]) ∧
    (aiterLines chunks).filter (startsWith "data:") =
      ["data: " ++ (successBody requestId result).dumps] := by
  have hprintable : Printable (successBody requestId result).dumps.toList := by
    rw [Json.dumps, String.toList_ofList]
    exact Json.printable_dumpsChars _ hnumbers
  have herror : (((requestId.map fun id => ("id", id)).toList ++
      [("jsonrpc", .str "2.0"), ("result", result)]).lookup "error" : Option Json) = none := by
    cases requestId <;> rfl
  have hresult : (((requestId.map fun id => ("id", id)).toList ++
      [("jsonrpc", .str "2.0"), ("result", result)]).lookup "result" : Option Json) =
        some result := by
    cases requestId <;> rfl
  rw [hlines chunks _ hchunks, splitlines_event hprintable]
  constructor
  · rw [successBody] at hloads ⊢
    rw [streamResult_event str loads hloads herror, hresult]
    rfl
  · rw [List.filter_cons_of_pos (startsWith_dataLine _)]
    rfl

/-- `bytes.decode()` of a text that was encoded. -/
def decodeUtf8 (bytes : Bytes) : String := (String.fromUTF8? ⟨bytes.toArray⟩).getD ""

/-- A text encoded is decoded again. -/
theorem decodeUtf8_encodeUtf8 (text : String) : decodeUtf8 (encodeUtf8 text) = text := by
  have hbytes : (⟨(encodeUtf8 text).toArray⟩ : ByteArray) = text.toByteArray := by
    rw [encodeUtf8]
    rfl
  rw [decodeUtf8, hbytes, String.fromUTF8?, dif_pos text.isValidUTF8]
  rfl

/-- A reply with line ends, a line separator and quotes in it. -/
def unicodeReply : Json := .obj [("text", .str "one\r\ntwo\u2028\x85 \"three\"")]

/-- The body of the example, with characters that would end a line. -/
def unicodeBody : Json := successBody (some (.num "7")) unicodeReply

/-- The reply arrives from two chunks. -/
theorem reply_round_trip :
    streamResult id (fun _ => .value unicodeBody)
      (splitlines (decodeUtf8 [(sse unicodeBody).take 9, (sse unicodeBody).drop 9].flatten)) =
    (.ok unicodeReply, [""]) :=
  (sse_round_trip id (fun _ => .value unicodeBody)
    (fun chunks => splitlines (decodeUtf8 chunks.flatten))
    (fun chunks text htext => by rw [htext, decodeUtf8_encodeUtf8])
    (some (.num "7")) unicodeReply (by decide) rfl
    [(sse unicodeBody).take 9, (sse unicodeBody).drop 9]
    (by simp [unicodeBody])).1

end AgentHub
