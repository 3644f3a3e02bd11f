import Mathlib.Data.List.Basic

namespace Relational

/-!
# Sessions of a database driver

A program sends commands to a database whose driver opens a transaction by itself, but only
before some of the statements: every other statement outside a transaction commits at once.
What is durable and what the connection sees therefore differ, and a crash or an error leaves
the durable state.

* `Engine` — what a statement does to a state, which statements open a transaction, and a
  check a program may make; `Session` — the two states of a connection;
* `Engine.run` — a list of commands; `Engine.runProgram` — a program that looks at the
  schema between its blocks of commands;
* `Engine.trace` — the durable state after each command, which is what an interruption there
  leaves behind;
* `Carries`, `run_map` — a map between the states of two engines that agrees with every
  statement carries the runs of the one to the runs of the other; `outcome_map` and
  `interrupted_map` say so of programs.
-/

universe u v w

variable {α : Type u} {σ : Type v} {ω : Type w}

/-- What a program does: a statement, the two ends of a transaction, a check that may raise, or
    an error of its own. -/
inductive Command (α : Type u) where
  | execute (a : α)
  | begin
  | check
  | commit
  | raise

/-- A database as its driver runs it. -/
structure Engine (α : Type u) (σ : Type v) where
  /-- One statement; `none` is an SQL error. -/
  exec : α → σ → Option σ
  /-- The driver opens a transaction before the statement. -/
  opens : α → Bool
  check : σ → Bool

/-- A connection: what is on disk, and what it sees. -/
structure Session (σ : Type v) where
  durable : σ
  working : σ
  inTransaction : Bool

/-- A connection that has just been opened. -/
def Session.opened (s : σ) : Session σ := ⟨s, s, false⟩

namespace Engine

variable (E : Engine α σ)

/-- One command.  An error rolls the open transaction back: what was durable is left. -/
def step (c : Command α) (s : Session σ) : Except σ (Session σ) :=
  match c with
  | .execute a =>
    match E.exec a s.working with
    | none => .error s.durable
    | some t => .ok (bif s.inTransaction || E.opens a then ⟨s.durable, t, true⟩ else .opened t)
  | .begin => .ok { s with inTransaction := true }
  | .check => bif E.check s.working then .ok s else .error s.durable
  | .commit => .ok (.opened s.working)
  | .raise => .error s.durable

/-- The commands in order, up to the first error. -/
def run : List (Command α) → Session σ → Except σ (Session σ)
  | [], s => .ok s
  | c :: cs, s => (E.step c s).bind (run cs)

/-- The durable state after each of the commands, up to the first error. -/
def trace : List (Command α) → Session σ → List σ
  | [], _ => []
  | c :: cs, s =>
    match E.step c s with
    | .error d => [d]
    | .ok t => t.durable :: trace cs t

/-- A program: each block reads the schema of what the connection sees, and sends commands. -/
abbrev Program (α : Type u) (ω : Type w) := List (ω → List (Command α))

variable (view : σ → ω)

/-- A program, up to its first error. -/
def runProgram : Program α ω → Session σ → Except σ (Session σ)
  | [], s => .ok s
  | b :: bs, s => (E.run (b (view s.working)) s).bind (runProgram bs)

/-- The durable state after each command of a program. -/
def traceProgram : Program α ω → Session σ → List σ
  | [], _ => []
  | b :: bs, s =>
    E.trace (b (view s.working)) s ++
      match E.run (b (view s.working)) s with
      | .error _ => []
      | .ok t => traceProgram bs t

/-- What is on disk when a program is over, and whether it went through. -/
def outcome (p : Program α ω) (s : σ) : σ × Bool :=
  match E.runProgram view p (.opened s) with
  | .error d => (d, false)
  | .ok t => (t.durable, true)

/-- What is on disk when a program is interrupted after `n` commands; after the last one that
    is the outcome. -/
def interrupted (p : Program α ω) (n : ℕ) (s : σ) : σ :=
  (s :: E.traceProgram view p (.opened s)).getD n (E.outcome view p s).1

end Engine

/-! ### Maps between engines -/

section Map

variable {τ : Type v} (f : σ → τ)

/-- Both states of a connection, mapped. -/
def Session.map (s : Session σ) : Session τ := ⟨f s.durable, f s.working, s.inTransaction⟩

/-- A session on an opened database, seen through `f`. -/
@[simp] theorem Session.map_opened (s : σ) : (Session.opened s).map f = .opened (f s) := rfl

/-- The database a session works on, seen through `f`. -/
@[simp] theorem Session.working_map (s : Session σ) : (s.map f).working = f s.working := rfl

/-- The database that is left when the process dies, seen through `f`. -/
@[simp] theorem Session.durable_map (s : Session σ) : (s.map f).durable = f s.durable := rfl

/-- The result of a run, mapped. -/
def mapResult : Except σ (Session σ) → Except τ (Session τ)
  | .error d => .error (f d)
  | .ok s => .ok (s.map f)

namespace Engine

/-- The same statements, with another check. -/
def withCheck (E : Engine α σ) (check : σ → Bool) : Engine α σ := { E with check }

/-- `f` carries the statements of `E` that go through to `E'`, whose check has the one answer
    `holds` on stable states. -/
structure Carries (E : Engine α σ) (E' : Engine α τ) (stable : σ → Bool) (holds : Bool) :
    Prop where
  exec : ∀ {a s t}, E.exec a s = some t → E'.exec a (f s) = some (f t)
  opens : ∀ a, E'.opens a = E.opens a
  check : ∀ {s}, stable s = true → E'.check (f s) = holds

variable {f} {E : Engine α σ} {E' : Engine α τ} {stable : σ → Bool} {holds : Bool}

variable (holds) in
/-- A command that goes through when the check asks for stability does so with the check of
    `E'`, up to its answer. -/
theorem step_withCheck {c : Command α} {s t : Session σ}
    (hstep : (E.withCheck stable).step c s = .ok t) :
    (E.withCheck fun s => stable s && holds).step c s = .ok t ∨
      c = .check ∧ holds = false ∧
        (E.withCheck fun s => stable s && holds).step c s = .error s.durable := by
  cases c with
  | check =>
    simp only [step, withCheck] at hstep ⊢
    cases hstable : stable s.working with
    | false => simp [hstable] at hstep
    | true =>
      cases holds with
      | true => simpa [hstable] using hstep
      | false => simp
  | _ => exact .inl hstep

/-- A command that succeeds on one side succeeds on the other, unless a check fails there. -/
theorem step_map (h : Carries f E E' stable holds) {c : Command α} {s t : Session σ}
    (hstep : (E.withCheck stable).step c s = .ok t) :
    E'.step c (s.map f) = mapResult f ((E.withCheck fun s => stable s && holds).step c s) := by
  cases c with
  | execute a =>
    simp only [step, withCheck] at hstep ⊢
    cases hw : E.exec a s.working with
    | none =>
      rw [hw] at hstep
      cases hstep
    | some w =>
      have hw' : E'.exec a (s.map f).working = some (f w) := h.exec hw
      simp only [hw', h.opens, mapResult]
      show Except.ok (bif s.inTransaction || E.opens a then _ else _) = _
      cases s.inTransaction || E.opens a <;> rfl
  | begin => rfl
  | check =>
    simp only [step, withCheck] at hstep ⊢
    cases hstable : stable s.working with
    | false => simp [hstable] at hstep
    | true =>
      have hcheck : E'.check (s.map f).working = holds := h.check hstable
      rw [hcheck, Bool.true_and]
      cases holds <;> rfl
  | commit => rfl
  | raise => rfl

/-- **Runs are carried over**, when they go through as far as the statements are concerned. -/
theorem run_map (h : Carries f E E' stable holds) {cs : List (Command α)} {s t : Session σ}
    (hrun : (E.withCheck stable).run cs s = .ok t) :
    E'.run cs (s.map f) = mapResult f ((E.withCheck fun s => stable s && holds).run cs s) ∧
      E'.trace cs (s.map f) = ((E.withCheck fun s => stable s && holds).trace cs s).map f ∧
      ∀ u, (E.withCheck fun s => stable s && holds).run cs s = .ok u → u = t := by
  induction cs generalizing s with
  | nil =>
    obtain rfl := Except.ok.inj hrun
    exact ⟨rfl, rfl, fun u hu => (Except.ok.inj hu).symm⟩
  | cons c cs ih =>
    cases hstep : (E.withCheck stable).step c s with
    | error d =>
      rw [run, hstep] at hrun
      cases hrun
    | ok w =>
      rw [run, hstep] at hrun
      obtain ⟨hrest, htrace, hlast⟩ := ih hrun
      have hmap := step_map h hstep
      rcases step_withCheck holds hstep with hok | ⟨-, -, herror⟩
      · rw [hok] at hmap
        refine ⟨?_, ?_, ?_⟩
        · rw [run, run, hmap, hok]
          exact hrest
        · rw [trace, trace, hmap, hok]
          exact congrArg _ htrace
        · intro u hu
          rw [run, hok] at hu
          exact hlast u hu
      · rw [herror] at hmap
        refine ⟨?_, ?_, ?_⟩
        · rw [run, run, hmap, herror]
          rfl
        · rw [trace, trace, hmap, herror]
          rfl
        · intro u hu
          rw [run, herror] at hu
          cases hu

variable {view : σ → ω} {view' : τ → ω}

/-- A program that succeeds on one side runs alike on the other, with the same trace. -/
theorem runProgram_map (h : Carries f E E' stable holds) (hview : ∀ s, view' (f s) = view s)
    {p : Program α ω} {s t : Session σ} (hrun : (E.withCheck stable).runProgram view p s = .ok t) :
    E'.runProgram view' p (s.map f) =
        mapResult f ((E.withCheck fun s => stable s && holds).runProgram view p s) ∧
      E'.traceProgram view' p (s.map f) =
        ((E.withCheck fun s => stable s && holds).traceProgram view p s).map f := by
  induction p generalizing s with
  | nil => exact ⟨rfl, rfl⟩
  | cons b bs ih =>
    cases hblock : (E.withCheck stable).run (b (view s.working)) s with
    | error d =>
      rw [runProgram, hblock] at hrun
      cases hrun
    | ok w =>
      rw [runProgram, hblock] at hrun
      obtain ⟨hmap, htrace, hlast⟩ := run_map h hblock
      rw [runProgram, runProgram, traceProgram, traceProgram, Session.working_map, hview, hmap,
        htrace, List.map_append]
      cases hok : (E.withCheck fun s => stable s && holds).run (b (view s.working)) s with
      | error d => exact ⟨rfl, rfl⟩
      | ok u =>
        obtain rfl := hlast u hok
        obtain ⟨hrest, hresttrace⟩ := ih hrun
        exact ⟨hrest, congrArg _ hresttrace⟩

/-- The program goes through, as far as the statements are concerned. -/
def completes (E : Engine α σ) (view : σ → ω) (p : Program α ω) (s : σ) : Bool :=
  (E.outcome view p s).2

/-- A program that completes runs to its end. -/
theorem runProgram_of_completes {p : Program α ω} {s : σ} (hc : E.completes view p s = true) :
    ∃ t, E.runProgram view p (.opened s) = .ok t := by
  unfold completes outcome at hc
  cases hrun : E.runProgram view p (.opened s) with
  | error d =>
    rw [hrun] at hc
    cases hc
  | ok t => exact ⟨t, rfl⟩

/-- **The outcome is carried over.** -/
theorem outcome_map (h : Carries f E E' stable holds) (hview : ∀ s, view' (f s) = view s)
    {p : Program α ω} {s : σ} (hc : (E.withCheck stable).completes view p s = true) :
    E'.outcome view' p (f s) =
      ((E.withCheck fun s => stable s && holds).outcome view p s).map f id := by
  obtain ⟨t, ht⟩ := runProgram_of_completes hc
  have hrun := (runProgram_map h hview ht).1
  rw [Session.map_opened] at hrun
  rw [outcome, outcome, hrun]
  cases (E.withCheck fun s => stable s && holds).runProgram view p (.opened s) with
  | error d => rfl
  | ok t => rfl

/-- **So is what an interruption leaves.** -/
theorem interrupted_map (h : Carries f E E' stable holds) (hview : ∀ s, view' (f s) = view s)
    {p : Program α ω} {s : σ} (hc : (E.withCheck stable).completes view p s = true) (n : ℕ) :
    E'.interrupted view' p n (f s) =
      f ((E.withCheck fun s => stable s && holds).interrupted view p n s) := by
  obtain ⟨t, ht⟩ := runProgram_of_completes hc
  have htrace := (runProgram_map h hview ht).2
  rw [Session.map_opened] at htrace
  rw [interrupted, interrupted, htrace, outcome_map h hview hc, ← List.map_cons]
  simp only [List.getD_eq_getElem?_getD, List.getElem?_map]
  exact Option.getD_map f _ _

end Engine

end Map

end Relational
