import Mathlib.Logic.Relation

namespace Effects

/-!
# Programs that may die between two effects

A program is the tree of the calls it makes on a world that others change in between.  The process
that runs it may end at any point; only the world survives, and the next process starts the program
from its beginning.

* `Program` — a program, as a monad; `raise` ends it with an error;
* `Semantics` — what a call may do, and what others may do between two calls;
* `Step`, `Reachable` — the process and the world, with a crash at every point;
* `Always` — a property of the program and the world together that holds wherever the program is,
  whatever others do;
* `Refuses` — the program changes nothing that `keep` protects, and returns nothing;
* `reachable_always` — the induction over all runs, crashes and restarts.
-/

/-- A program over calls `E`, each with the type of its response. -/
inductive Program (E : Type) (R : E → Type) (A : Type) where
  | done (a : A)
  | raise (message : String)
  | call (e : E) (next : R e → Program E R A)

variable {E : Type} {R : E → Type} {A B : Type}

namespace Program

/-- One program after the other; an error ends both. -/
def bind (p : Program E R A) (f : A → Program E R B) : Program E R B :=
  match p with
  | done a => f a
  | raise message => raise message
  | call e next => call e fun r => bind (next r) f

instance : Monad (Program E R) where
  pure := done
  bind := bind

/-- A program that returns is done. -/
@[simp] theorem pure_eq (a : A) : (pure a : Program E R A) = done a := rfl

/-- A finished program hands its result on. -/
@[simp] theorem done_bind (a : A) (f : A → Program E R B) : (done a >>= f) = f a := rfl

/-- A program that gave up does not go on. -/
@[simp] theorem raise_bind (message : String) (f : A → Program E R B) :
    (raise message >>= f) = raise message := rfl

/-- A program goes on after its first call. -/
@[simp] theorem call_bind (e : E) (next : R e → Program E R A) (f : A → Program E R B) :
    (call e next >>= f) = call e fun r => next r >>= f := rfl

/-- Programs are put together in any grouping. -/
theorem bind_assoc {C : Type} (p : Program E R A) (f : A → Program E R B)
    (g : B → Program E R C) : (p >>= f) >>= g = p >>= fun a => f a >>= g := by
  induction p with
  | done a => rfl
  | raise message => rfl
  | call e next ih =>
    simp only [call_bind]
    congr 1
    funext r
    exact ih r

/-- Going on with nothing is the program itself. -/
theorem bind_done (p : Program E R A) : (p >>= done) = p := by
  induction p with
  | done a => rfl
  | raise message => rfl
  | call e next ih =>
    rw [call_bind]
    congr 1
    funext r
    exact ih r

/-- The program of a single call. -/
def perform (e : E) : Program E R (R e) := call e done

/-- A single effect, and what follows. -/
@[simp] theorem perform_bind (e : E) (f : R e → Program E R B) :
    (perform e >>= f) = call e f := rfl

end Program

/-- What the calls and the others do to a world. -/
structure Semantics (E : Type) (R : E → Type) (W : Type) where
  exec : (e : E) → W → R e → W → Prop
  rely : W → W → Prop

variable {W : Type} (sem : Semantics E R W)

/-! ### Processes -/

/-- The world, and what the process has still to run, if there is one. -/
structure System (E : Type) (R : E → Type) (A W : Type) where
  world : W
  running : Option (Program E R A)

/-- One step of the process running `start`, or of the others. -/
inductive Step (start : Program E R A) : System E R A W → System E R A W → Prop
  | invoke {w : W} : Step start ⟨w, none⟩ ⟨w, some start⟩
  | act {w w' : W} {e : E} {next : R e → Program E R A} {r : R e} (h : sem.exec e w r w') :
      Step start ⟨w, some (.call e next)⟩ ⟨w', some (next r)⟩
  /-- The process returns, raises, or dies. -/
  | stop {w : W} {p : Program E R A} : Step start ⟨w, some p⟩ ⟨w, none⟩
  | interfere {w w' : W} {running : Option (Program E R A)} (h : sem.rely w w') :
      Step start ⟨w, running⟩ ⟨w', running⟩

/-- What runs from `w` with no process running come to. -/
def Reachable (start : Program E R A) (w : W) : System E R A W → Prop :=
  Relation.ReflTransGen (Step sem start) ⟨w, none⟩

/-! ### Wherever the program is -/

/-- The world after some steps of the others. -/
def Later : W → W → Prop := Relation.ReflTransGen sem.rely

/-- An assertion that the others keep. -/
def Stable (P : W → Prop) : Prop := ∀ w w', P w → sem.rely w w' → P w'

variable {sem}

/-- A stable fact holds at every later state. -/
theorem Stable.later {P : W → Prop} (hP : Stable sem P) {w w' : W} (h : Later sem w w')
    (hw : P w) : P w' := by
  induction h with
  | refl => exact hw
  | tail _ hstep ih => exact hP _ _ ih hstep

/-- Two stable facts together are stable. -/
theorem Stable.and {P Q : W → Prop} (hP : Stable sem P) (hQ : Stable sem Q) :
    Stable sem fun w => P w ∧ Q w :=
  fun w w' h hstep => ⟨hP w w' h.1 hstep, hQ w w' h.2 hstep⟩

variable (sem)

/-- `good` holds of what is left of the program and the world, now and at every later point of the
    run, with the others stepping in between. -/
def Always (good : Program E R A → W → Prop) : Program E R A → W → Prop
  | .done a, w => ∀ w₁, Later sem w w₁ → good (.done a) w₁
  | .raise message, w => ∀ w₁, Later sem w w₁ → good (.raise message) w₁
  | .call e next, w => ∀ w₁, Later sem w w₁ →
      good (.call e next) w₁ ∧ ∀ r w₂, sem.exec e w₁ r w₂ → Always good (next r) w₂

variable {sem} {good : Program E R A → W → Prop}

/-- What always holds, holds now. -/
theorem Always.now {p : Program E R A} {w : W} (h : Always sem good p w) : good p w := by
  cases p with
  | done a => exact h w .refl
  | raise message => exact h w .refl
  | call e next => exact (h w .refl).1

/-- What always holds, holds after a step of the environment. -/
theorem Always.interfere {p : Program E R A} {w w' : W} (h : Always sem good p w)
    (hstep : sem.rely w w') : Always sem good p w' := by
  cases p with
  | done a => exact fun w₁ hlater => h w₁ (.head hstep hlater)
  | raise message => exact fun w₁ hlater => h w₁ (.head hstep hlater)
  | call e next => exact fun w₁ hlater => h w₁ (.head hstep hlater)

/-- What always holds, holds after the program's own effect. -/
theorem Always.act {e : E} {next : R e → Program E R A} {w w' : W} {r : R e}
    (h : Always sem good (.call e next) w) (hexec : sem.exec e w r w') :
    Always sem good (next r) w' :=
  (h w .refl).2 r w' hexec

/-- **Crashes and restarts.** If an invariant is kept by the others, and wherever the program is,
    when it is started under the invariant, `good` holds, which implies the invariant, then they
    hold in every run, however often the process dies and is started again. -/
theorem reachable_always {start : Program E R A} {Inv : W → Prop} (hstable : Stable sem Inv)
    (hgood : ∀ p w, good p w → Inv w) (hstart : ∀ w, Inv w → Always sem good start w) {w : W}
    (hw : Inv w) {s : System E R A W} (hs : Reachable sem start w s) :
    Inv s.world ∧ ∀ p, s.running = some p → good p s.world := by
  have hall : Inv s.world ∧ ∀ p, s.running = some p → Always sem good p s.world := by
    induction hs with
    | refl => exact ⟨hw, fun p hp => by cases hp⟩
    | tail _ hstep ih =>
      cases hstep with
      | @invoke w =>
        refine ⟨ih.1, fun p hp => ?_⟩
        cases hp
        exact hstart w ih.1
      | act hexec =>
        have hnext := (ih.2 _ rfl).act hexec
        refine ⟨hgood _ _ hnext.now, fun p hp => ?_⟩
        cases hp
        exact hnext
      | stop => exact ⟨ih.1, fun p hp => by cases hp⟩
      | interfere hrely =>
        exact ⟨hstable _ _ ih.1 hrely, fun p hp => (ih.2 p hp).interfere hrely⟩
  exact ⟨hall.1, fun p hp => (hall.2 p hp).now⟩

/-! ### Rules -/

/-- A call is made at some later point, where a stable assertion still holds. -/
theorem Always.call {P : W → Prop} (hP : Stable sem P) {e : E} {next : R e → Program E R A} {w : W}
    (hw : P w) (hgood : ∀ w₁, P w₁ → good (.call e next) w₁)
    (hnext : ∀ w₁ r w₂, P w₁ → sem.exec e w₁ r w₂ → Always sem good (next r) w₂) :
    Always sem good (.call e next) w := by
  intro w₁ hlater
  have hw₁ := hP.later hlater hw
  exact ⟨hgood w₁ hw₁, fun r w₂ hexec => hnext w₁ r w₂ hw₁ hexec⟩

/-- A finished program is good where a stable fact holds. -/
theorem Always.done {P : W → Prop} (hP : Stable sem P) {a : A} {w : W} (hw : P w)
    (hgood : ∀ w₁, P w₁ → good (.done a) w₁) : Always sem good (.done a) w :=
  fun _ hlater => hgood _ (hP.later hlater hw)

/-- A program that gave up is good where a stable fact holds. -/
theorem Always.raise {P : W → Prop} (hP : Stable sem P) {message : String} {w : W} (hw : P w)
    (hgood : ∀ w₁, P w₁ → good (.raise message) w₁) : Always sem good (.raise message) w :=
  fun _ hlater => hgood _ (hP.later hlater hw)

/-! ### Refusals -/

variable (sem)

/-- From here on the program changes nothing that `keep` compares, and does not return: it raises,
    if it is not ended before. -/
def Refuses (keep : W → W → Prop) : Program E R A → W → Prop
  | .done _, _ => False
  | .raise _, _ => True
  | .call e next, w => ∀ w₁, Later sem w w₁ →
      ∀ r w₂, sem.exec e w₁ r w₂ → keep w₁ w₂ ∧ Refuses keep (next r) w₂

variable {sem} {keep : W → W → Prop}

/-- A program that refuses is not brought back by what comes after it. -/
theorem Refuses.bind {p : Program E R A} {w : W} (h : Refuses sem keep p w)
    (f : A → Program E R B) : Refuses sem keep (p >>= f) w := by
  induction p generalizing w with
  | done a => exact h.elim
  | raise message => exact trivial
  | call e next ih =>
    intro w₁ hlater r w₂ hexec
    obtain ⟨hkeep, hnext⟩ := h w₁ hlater r w₂ hexec
    exact ⟨hkeep, ih r hnext⟩

end Effects
