import AgentHub.Common.Json
import AgentHub.Framing.Lines

namespace AgentHub

open Framing

/-!
# Reading the MCP requests

`CancellableStdin`, the reader of the hub's MCP connection: lines taken off a file descriptor
through a buffer that outlives the call.

* `CancellableStdin.readline` — `_readline`, over the chunks `os.read` has still to give;
* `CancellableStdin.unread` — what has arrived or will arrive and no call has returned;
* `readline_spec` — one call returns the first line of it and leaves the rest;
* `readline_framing` — so the calls return the lines of the stream, however it was cut.
-/

/-- `b"\n"`. -/
def newline : UInt8 := 10

/-- The reader, with the bytes it has read and not yet returned. -/
structure CancellableStdin where
  pending : Bytes
deriving DecidableEq

namespace CancellableStdin

variable {Text : Type}

/-- `__init__`. -/
def init : CancellableStdin := ⟨[]⟩

/-- `_readline`, given `decode("utf-8", errors="replace")` and the chunks `os.read` has still to
    return: the line, the reader after the call and the chunks left.  `os.read` returns nothing
    at end of file. -/
def readline (decode : Bytes → Text) (self : CancellableStdin) (chunks : List Bytes) :
    Text × CancellableStdin × List Bytes :=
  if newline ∈ self.pending then
    let (line, pending) := cut newline self.pending
    (decode (line ++ [newline]), { self with pending }, chunks)
  else
    match chunks with
    | [] => (decode self.pending, { self with pending := [] }, [])
    | chunk :: chunks =>
      if chunk = [] then (decode self.pending, { self with pending := [] }, chunks)
      else readline decode { self with pending := self.pending ++ chunk } chunks

/-- The reader and its descriptor after `n` calls. -/
def after (decode : Bytes → Text) (chunks : List Bytes) : ℕ → CancellableStdin × List Bytes
  | 0 => (init, chunks)
  | n + 1 =>
    let (self, chunks) := after decode chunks n
    (self.readline decode chunks).2

/-- What call number `n` returns, counting from zero. -/
def taken (decode : Bytes → Text) (chunks : List Bytes) (n : ℕ) : Text :=
  let (self, chunks) := after decode chunks n
  (self.readline decode chunks).1

/-- The bytes of the stream that no call has returned. -/
def unread (self : CancellableStdin) (chunks : List Bytes) : Bytes := self.pending ++ chunks.flatten

/-! ### One call -/

variable (decode : Bytes → Text)

/-- A line in the buffer is returned without a read. -/
theorem readline_line {self : CancellableStdin} (h : newline ∈ self.pending)
    (chunks : List Bytes) :
    self.readline decode chunks =
      (decode ((cut newline self.pending).1 ++ [newline]), ⟨(cut newline self.pending).2⟩,
        chunks) := by
  cases chunks <;> rw [readline, if_pos h]

/-- At end of file the buffer is returned. -/
theorem readline_eof {self : CancellableStdin} (h : newline ∉ self.pending) :
    self.readline decode [] = (decode self.pending, ⟨[]⟩, []) := by
  rw [readline, if_neg h]

/-- A chunk that is read moves from the descriptor to the buffer. -/
theorem readline_chunk {self : CancellableStdin} (h : newline ∉ self.pending) {chunk : Bytes}
    (hchunk : chunk ≠ []) (chunks : List Bytes) :
    self.readline decode (chunk :: chunks) =
      readline decode ⟨self.pending ++ chunk⟩ chunks := by
  rw [readline, if_neg h]
  simp only [if_neg hchunk]

/-- One call returns the first line that is unread, or nothing at end of file, and leaves the other
    lines unread. -/
theorem readline_spec (self : CancellableStdin) (chunks : List Bytes)
    (hne : ∀ chunk ∈ chunks, chunk ≠ []) :
    (self.readline decode chunks).1 =
      decode ((lines newline (self.unread chunks)).headD []) ∧
    lines newline
        ((self.readline decode chunks).2.1.unread (self.readline decode chunks).2.2) =
      (lines newline (self.unread chunks)).tail ∧
    ∀ chunk ∈ (self.readline decode chunks).2.2, chunk ≠ [] := by
  induction chunks generalizing self with
  | nil =>
    by_cases hin : newline ∈ self.pending
    · rw [readline_line decode hin, unread, lines_eq_cut hin]
      exact ⟨rfl, rfl, hne⟩
    · -- end of file: the buffer holds the remainder, if there is one
      rw [readline_eof decode hin]
      by_cases hnil : self.pending = []
      · simp [unread, hnil, lines]
      · simp [unread, lines_remainder hnil hin, lines]
  | cons chunk chunks ih =>
    have hchunk : chunk ≠ [] := hne chunk List.mem_cons_self
    have hrest : ∀ chunk ∈ chunks, chunk ≠ [] := fun c hc => hne c (List.mem_cons_of_mem _ hc)
    by_cases hin : newline ∈ self.pending
    · rw [readline_line decode hin, unread, lines_eq_cut hin]
      exact ⟨rfl, rfl, hne⟩
    · have hmove : self.unread (chunk :: chunks) = unread ⟨self.pending ++ chunk⟩ chunks := by
        simp [unread]
      rw [readline_chunk decode hin hchunk, hmove]
      exact ih _ hrest

/-! ### The calls of a connection -/

/-- After `n` calls the unread lines are those of the stream but the first `n`. -/
theorem after_spec (chunks : List Bytes) (hne : ∀ chunk ∈ chunks, chunk ≠ []) (n : ℕ) :
    lines newline ((after decode chunks n).1.unread (after decode chunks n).2) =
      (lines newline chunks.flatten).drop n ∧
    ∀ chunk ∈ (after decode chunks n).2, chunk ≠ [] := by
  induction n with
  | zero => exact ⟨by simp [after, unread, init], hne⟩
  | succ n ih =>
    obtain ⟨hlines, hleft⟩ := ih
    obtain ⟨_, hnext, hleft'⟩ := readline_spec decode (after decode chunks n).1 _ hleft
    refine ⟨?_, hleft'⟩
    rw [hlines, List.tail_drop] at hnext
    exact hnext

/-- Call number `n` returns line number `n` of the stream, and nothing once there are no more. -/
theorem taken_eq (chunks : List Bytes) (hne : ∀ chunk ∈ chunks, chunk ≠ []) (n : ℕ) :
    taken decode chunks n = decode (((lines newline chunks.flatten)[n]?).getD []) := by
  obtain ⟨hlines, hleft⟩ := after_spec decode chunks hne n
  obtain ⟨htext, _, _⟩ := readline_spec decode (after decode chunks n).1 _ hleft
  rw [hlines, List.headD_eq_head?_getD, List.head?_drop] at htext
  exact htext

/-- **The framing does not depend on the chunks.** However a stream is cut into chunks, the calls
    return its lines in order and then nothing; the lines make the stream up, and each ends in its
    only newline but the last, which may be a non-empty remainder. -/
theorem readline_framing (stream : Bytes) (chunks : List Bytes)
    (hne : ∀ chunk ∈ chunks, chunk ≠ []) (hstream : chunks.flatten = stream) :
    (∀ (i : ℕ) (hi : i < (lines newline stream).length),
      taken decode chunks i = decode (lines newline stream)[i]) ∧
    (∀ i, (lines newline stream).length ≤ i → taken decode chunks i = decode []) ∧
    (lines newline stream).flatten = stream ∧
    ∀ (i : ℕ) (hi : i < (lines newline stream).length),
      (∃ t, newline ∉ t ∧ (lines newline stream)[i] = t ++ [newline]) ∨
      (i + 1 = (lines newline stream).length ∧ newline ∉ (lines newline stream)[i] ∧
        (lines newline stream)[i] ≠ []) := by
  refine ⟨?_, ?_, flatten_lines newline stream, ?_⟩
  · intro i hi
    rw [taken_eq decode chunks hne, hstream, List.getElem?_eq_getElem hi, Option.getD_some]
  · intro i hi
    rw [taken_eq decode chunks hne, hstream, List.getElem?_eq_none hi, Option.getD_none]
  · intro i hi
    exact (framed_lines newline stream).line_or_remainder hi

/-- A line cut inside, two lines in one chunk and a remainder: `a⏎b⏎c` in two chunks. -/
theorem framing_of_cut :
    (List.range 5).map (taken id [[97], [10, 98, 10, 99]]) =
      [[97, 10], [98, 10], [99], [], []] := by
  have h := readline_framing id [97, 10, 98, 10, 99] [[97], [10, 98, 10, 99]] (by decide) rfl
  have hlines : lines newline [97, 10, 98, 10, 99] = [[97, 10], [98, 10], [99]] := by decide
  rw [hlines] at h
  obtain ⟨hline, hend, -⟩ := h
  have hrange : List.range 5 = [0, 1, 2, 3, 4] := by decide
  rw [hrange, List.map_cons, List.map_cons, List.map_cons, List.map_cons, List.map_cons,
    List.map_nil, hline 0 (by decide), hline 1 (by decide), hline 2 (by decide),
    hend 3 (by decide), hend 4 (by decide)]
  rfl

end CancellableStdin

end AgentHub
