import Mathlib.Data.List.Forall2
import Mathlib.Data.List.Induction
import Mathlib.Data.List.Pairwise
import Mathlib.Logic.Function.Basic

namespace Correlation

/-!
# Pairing requests with their responses

A connection on which a request waits under a key for the response that names it.  Whoever watches
the connection keeps, for each key, the last request that is open, and hands out a pair for every
response that finds one.

* `Signal` — what is seen on the connection;
* `follow`, `completes`, `opened`, `paired` — the book-keeping;
* `Answers` — that a response answers a request, by their places alone: they have one key, and
  nothing under that key lies between them;
* `paired_places` — the pairs handed out are those of `Answers`, in the order of the responses.
-/

universe u v w

/-- A request under a key, a response to a key, or something else. -/
inductive Signal (κ : Type u) (α : Type v) (β : Type w) where
  | opens (k : κ) (a : α)
  | closes (k : κ) (b : β)
  | other

variable {κ : Type u} {α : Type v} {β : Type w}

/-- The key a signal is about. -/
def Signal.key? : Signal κ α β → Option κ
  | .opens k _ | .closes k _ => some k
  | .other => none

/-! ### The book-keeping -/

section

variable [DecidableEq κ]

/-- What is open after a signal. -/
def follow (o : κ → Option α) : Signal κ α β → κ → Option α
  | .opens k a => Function.update o k (some a)
  | .closes k _ => Function.update o k none
  | .other => o

/-- The pair a signal completes. -/
def completes (o : κ → Option α) : Signal κ α β → Option (α × β)
  | .closes k b => (o k).map fun a => (a, b)
  | .opens _ _ | .other => none

/-- What is open after all signals. -/
def opened (signals : List (Signal κ α β)) : κ → Option α := signals.foldl follow fun _ => none

/-- The pairs that signals complete, given what is open before them. -/
def pairedFrom (o : κ → Option α) : List (Signal κ α β) → List (α × β)
  | [] => []
  | s :: signals => (completes o s).toList ++ pairedFrom (follow o s) signals

/-- The pairs that all signals complete. -/
def paired (signals : List (Signal κ α β)) : List (α × β) := pairedFrom (fun _ => none) signals

/-- The calls open after one more signal. -/
theorem opened_snoc (signals : List (Signal κ α β)) (s : Signal κ α β) :
    opened (signals ++ [s]) = follow (opened signals) s := by
  rw [opened, List.foldl_append]
  rfl

/-- The pairs of more signals, given what is open before them. -/
theorem pairedFrom_append (o : κ → Option α) (signals later : List (Signal κ α β)) :
    pairedFrom o (signals ++ later) =
      pairedFrom o signals ++ pairedFrom (signals.foldl follow o) later := by
  induction signals generalizing o with
  | nil => rfl
  | cons s signals ih =>
    show (completes o s).toList ++ pairedFrom (follow o s) (signals ++ later) = _
    rw [ih, ← List.append_assoc]
    rfl

/-- The pairs after one more signal. -/
theorem paired_snoc (signals : List (Signal κ α β)) (s : Signal κ α β) :
    paired (signals ++ [s]) = paired signals ++ (completes (opened signals) s).toList := by
  rw [paired, pairedFrom_append]
  show _ ++ ((completes (opened signals) s).toList ++ []) = _
  rw [List.append_nil]
  rfl

end

/-! ### Places -/

/-- No signal about `k` stands after place `i`, up to place `j`. -/
def Quiet (signals : List (Signal κ α β)) (k : κ) (i j : ℕ) : Prop :=
  ∀ m x, i < m → m < j → signals[m]? = some x → x.key? ≠ some k

/-- The response at the second place answers the request at the first: they have one key, and
    nothing under it lies between them. -/
def Answers (signals : List (Signal κ α β)) (p : ℕ × ℕ) : Prop :=
  ∃ k a b, signals[p.1]? = some (.opens k a) ∧ signals[p.2]? = some (.closes k b) ∧ p.1 < p.2 ∧
    Quiet signals k p.1 p.2

/-- The request and the response at two places. -/
def StandAt (signals : List (Signal κ α β)) (p : ℕ × ℕ) (x : α × β) : Prop :=
  ∃ k, signals[p.1]? = some (.opens k x.1) ∧ signals[p.2]? = some (.closes k x.2)

section

variable {signals : List (Signal κ α β)} {s : Signal κ α β} {k : κ} {a : α} {i j : ℕ}
  {p q : ℕ × ℕ}

/-- An entry of a list with one more at the end. -/
theorem getElem?_snoc {γ : Type*} {l : List γ} {y x : γ} {n : ℕ} :
    (l ++ [y])[n]? = some x ↔ l[n]? = some x ∨ n = l.length ∧ y = x := by
  rcases Nat.lt_trichotomy n l.length with hlt | heq | hgt
  · rw [List.getElem?_append_left hlt]
    constructor
    · exact .inl
    · rintro (h | ⟨rfl, -⟩)
      · exact h
      · omega
  · subst heq
    simp
  · have hnone : l[n]? = none := List.getElem?_eq_none_iff.mpr (by omega)
    have hnone' : (l ++ [y])[n]? = none := by
      rw [List.getElem?_eq_none_iff, List.length_append, List.length_singleton]
      omega
    rw [hnone, hnone']
    constructor
    · intro h
      cases h
    · rintro (h | ⟨rfl, -⟩)
      · cases h
      · omega

/-- An entry has a position within the list. -/
theorem lt_length_of_some {γ : Type*} {l : List γ} {x : γ} {n : ℕ} (h : l[n]? = some x) :
    n < l.length := by
  by_contra hle
  rw [List.getElem?_eq_none_iff.mpr (by omega)] at h
  cases h

/-- A place in the old signals keeps its signal. -/
theorem getElem?_snoc_of_lt (h : i < signals.length) : (signals ++ [s])[i]? = signals[i]? :=
  List.getElem?_append_left h

/-- One more signal does not disturb a stretch before it. -/
theorem quiet_snoc (h : j ≤ signals.length) :
    Quiet (signals ++ [s]) k i j ↔ Quiet signals k i j := by
  constructor
  · intro hquiet m x him hmj hx
    exact hquiet m x him hmj (getElem?_snoc.mpr (.inl hx))
  · intro hquiet m x him hmj hx
    rw [getElem?_snoc_of_lt (by omega)] at hx
    exact hquiet m x him hmj hx

/-- Two responses to one request are one. -/
theorem Answers.response (hp : Answers signals p) (hq : Answers signals q) (h : p.1 = q.1) :
    p = q := by
  obtain ⟨k, a, b, ha, hb, hlt, hquiet⟩ := hp
  obtain ⟨k', a', b', ha', hb', hlt', hquiet'⟩ := hq
  rw [h, ha'] at ha
  obtain ⟨rfl, -⟩ := Signal.opens.inj (Option.some.inj ha)
  -- whichever came first, the other one has it between its request and itself
  rcases Nat.lt_trichotomy p.2 q.2 with hlt₂ | heq | hgt
  · exact absurd rfl (hquiet' p.2 _ (by omega) hlt₂ hb)
  · exact Prod.ext h heq
  · exact absurd rfl (hquiet q.2 _ (by omega) hgt hb')

/-- Two requests with one response are one. -/
theorem Answers.request (hp : Answers signals p) (hq : Answers signals q) (h : p.2 = q.2) :
    p = q := by
  obtain ⟨k, a, b, ha, hb, hlt, hquiet⟩ := hp
  obtain ⟨k', a', b', ha', hb', hlt', hquiet'⟩ := hq
  rw [h, hb'] at hb
  obtain ⟨rfl, -⟩ := Signal.closes.inj (Option.some.inj hb)
  rcases Nat.lt_trichotomy p.1 q.1 with hlt₁ | heq | hgt
  · exact absurd rfl (hquiet q.1 _ hlt₁ (by omega) ha')
  · exact Prod.ext heq h
  · exact absurd rfl (hquiet' p.1 _ hgt (by omega) ha)

/-- An answer has a position among the signals. -/
theorem Answers.lt_length (h : Answers signals p) : p.2 < signals.length := by
  obtain ⟨_, _, _, -, hb, -⟩ := h
  exact lt_length_of_some hb

/-- What answers in the old signals answers in the new ones, and nothing else does that ends
    there. -/
theorem answers_snoc (h : p.2 < signals.length) :
    Answers (signals ++ [s]) p ↔ Answers signals p := by
  constructor
  · rintro ⟨k, a, b, ha, hb, hlt, hquiet⟩
    rw [getElem?_snoc_of_lt (by omega)] at ha
    rw [getElem?_snoc_of_lt h] at hb
    exact ⟨k, a, b, ha, hb, hlt, (quiet_snoc (Nat.le_of_lt h)).mp hquiet⟩
  · rintro ⟨k, a, b, ha, hb, hlt, hquiet⟩
    exact ⟨k, a, b, getElem?_snoc.mpr (.inl ha), getElem?_snoc.mpr (.inl hb), hlt,
      (quiet_snoc (Nat.le_of_lt h)).mpr hquiet⟩

/-- A pair stays at its positions. -/
theorem StandAt.snoc {x : α × β} (h : StandAt signals p x) : StandAt (signals ++ [s]) p x := by
  obtain ⟨k, ha, hb⟩ := h
  exact ⟨k, getElem?_snoc.mpr (.inl ha), getElem?_snoc.mpr (.inl hb)⟩

/-- A new response answers the request that is open under its key. -/
theorem answers_last {b : β} : Answers (signals ++ [.closes k b]) (i, signals.length) ↔
    ∃ a, signals[i]? = some (.opens k a) ∧ Quiet signals k i signals.length := by
  constructor
  · rintro ⟨k', a, b', ha, hb, hlt, hquiet⟩
    rcases getElem?_snoc.mp hb with hb | ⟨-, heq⟩
    · exact absurd (lt_length_of_some hb) (Nat.lt_irrefl _)
    · obtain ⟨rfl, -⟩ := Signal.closes.inj heq
      rw [getElem?_snoc_of_lt hlt] at ha
      exact ⟨a, ha, (quiet_snoc (Nat.le_refl _)).mp hquiet⟩
  · rintro ⟨a, ha, hquiet⟩
    exact ⟨k, a, b, getElem?_snoc.mpr (.inl ha), getElem?_snoc.mpr (.inr ⟨rfl, rfl⟩),
      lt_length_of_some ha, (quiet_snoc (Nat.le_refl _)).mpr hquiet⟩

/-! ### The book-keeping finds the answers -/

variable [DecidableEq κ]

/-- **What is open** under a key is the last request under it, if nothing about the key came
    after. -/
theorem opened_iff : opened signals k = some a ↔
    ∃ i, signals[i]? = some (.opens k a) ∧ Quiet signals k i signals.length := by
  induction signals using List.reverseRecOn with
  | nil => simp [opened]
  | append_singleton signals s ih =>
    rw [opened_snoc, List.length_append, List.length_singleton]
    by_cases hkey : s.key? = some k
    · -- the new signal is about `k`, so it decides alone
      have honly : ∀ i, Quiet (signals ++ [s]) k i (signals.length + 1) → signals.length ≤ i := by
        intro i hquiet
        by_contra hlt
        exact hquiet signals.length s (by omega) (by omega)
          (getElem?_snoc.mpr (.inr ⟨rfl, rfl⟩)) hkey
      cases s with
      | opens k' a' =>
        obtain rfl : k' = k := Option.some.inj hkey
        rw [follow, Function.update_self, Option.some.injEq]
        constructor
        · rintro rfl
          refine ⟨signals.length, getElem?_snoc.mpr (.inr ⟨rfl, rfl⟩), fun m x hm hm' => ?_⟩
          omega
        · rintro ⟨i, hi, hquiet⟩
          rcases getElem?_snoc.mp hi with hi | ⟨-, heq⟩
          · have hlt := lt_length_of_some hi
            have hle := honly i hquiet
            omega
          · exact (Signal.opens.inj heq).2
      | closes k' b =>
        obtain rfl : k' = k := Option.some.inj hkey
        rw [follow, Function.update_self]
        constructor
        · intro h
          cases h
        · rintro ⟨i, hi, hquiet⟩
          rcases getElem?_snoc.mp hi with hi | ⟨-, heq⟩
          · have hlt := lt_length_of_some hi
            have hle := honly i hquiet
            omega
          · cases heq
      | other => cases hkey
    · -- the new signal is about something else, and changes nothing
      have hsame : follow (opened signals) s k = opened signals k := by
        cases s with
        | opens k' a' =>
          exact Function.update_of_ne (fun h => hkey (congrArg some h.symm)) ..
        | closes k' b =>
          exact Function.update_of_ne (fun h => hkey (congrArg some h.symm)) ..
        | other => rfl
      rw [hsame, ih]
      constructor
      · rintro ⟨i, hi, hquiet⟩
        refine ⟨i, getElem?_snoc.mpr (.inl hi), fun m x him hm hx => ?_⟩
        rcases getElem?_snoc.mp hx with hx | ⟨-, rfl⟩
        · exact hquiet m x him (lt_length_of_some hx) hx
        · exact hkey
      · rintro ⟨i, hi, hquiet⟩
        rcases getElem?_snoc.mp hi with hi | ⟨-, rfl⟩
        · exact ⟨i, hi, fun m x him hm hx =>
            hquiet m x him (by omega) (getElem?_snoc.mpr (.inl hx))⟩
        · exact absurd rfl hkey

/-- The pairs handed out stand at the places of the answers, in the order of the responses. -/
theorem paired_answers (signals : List (Signal κ α β)) :
    ∃ places : List (ℕ × ℕ), places.Pairwise (fun p q => p.2 < q.2) ∧
      (∀ p, p ∈ places ↔ Answers signals p) ∧
      List.Forall₂ (StandAt signals) places (paired signals) := by
  induction signals using List.reverseRecOn with
  | nil =>
    refine ⟨[], List.Pairwise.nil, fun p => ?_, List.Forall₂.nil⟩
    constructor
    · intro h
      cases h
    · intro h
      exact absurd h.lt_length (Nat.not_lt_zero _)
  | append_singleton signals s ih =>
    obtain ⟨places, hsorted, hplaces, hstand⟩ := ih
    have hbound : ∀ p ∈ places, p.2 < signals.length := fun p hp => ((hplaces p).mp hp).lt_length
    have hstand' : List.Forall₂ (StandAt (signals ++ [s])) places (paired signals) :=
      hstand.imp fun _ _ h => h.snoc
    rw [paired_snoc]
    cases hpair : completes (opened signals) s with
    | none =>
      -- no call is completed, so the places are as they were
      refine ⟨places, hsorted, fun p => ?_, by simpa using hstand'⟩
      rw [hplaces]
      constructor
      · intro h
        exact (answers_snoc h.lt_length).mpr h
      · intro h
        by_cases hlt : p.2 < signals.length
        · exact (answers_snoc hlt).mp h
        · -- the new signal would have to be a response to an open request
          have hlast : p = (p.1, signals.length) := by
            have hle := h.lt_length
            rw [List.length_append, List.length_singleton] at hle
            exact Prod.ext rfl (by omega)
          cases s with
          | closes k b =>
            rw [hlast] at h
            obtain ⟨a, hopen⟩ := answers_last.mp h
            have hsome := opened_iff.mpr ⟨p.1, hopen⟩
            rw [completes, hsome] at hpair
            cases hpair
          | opens k a =>
            obtain ⟨k', _, b, -, hb, -⟩ := h
            rw [hlast] at hb
            rcases getElem?_snoc.mp hb with hb | ⟨-, heq⟩
            · exact absurd (lt_length_of_some hb) (Nat.lt_irrefl _)
            · cases heq
          | other =>
            obtain ⟨k', _, b, -, hb, -⟩ := h
            rw [hlast] at hb
            rcases getElem?_snoc.mp hb with hb | ⟨-, heq⟩
            · exact absurd (lt_length_of_some hb) (Nat.lt_irrefl _)
            · cases heq
    | some x =>
      cases s with
      | closes k b =>
        obtain ⟨a, hopen, rfl⟩ := Option.map_eq_some_iff.mp hpair
        obtain ⟨i, hi, hquiet⟩ := opened_iff.mp hopen
        have hnew : Answers (signals ++ [.closes k b]) (i, signals.length) :=
          answers_last.mpr ⟨a, hi, hquiet⟩
        -- the response completes a call, at a place after all the others
        refine ⟨places ++ [(i, signals.length)], ?_, fun p => ?_, ?_⟩
        · refine List.pairwise_append.mpr ⟨hsorted, List.pairwise_singleton _ _, ?_⟩
          intro p hp q hq
          obtain rfl := List.mem_singleton.mp hq
          exact hbound p hp
        · rw [List.mem_append, List.mem_singleton, hplaces]
          constructor
          · rintro (h | rfl)
            · exact (answers_snoc h.lt_length).mpr h
            · exact hnew
          · intro h
            by_cases hlt : p.2 < signals.length
            · exact .inl ((answers_snoc hlt).mp h)
            · refine .inr (h.request hnew ?_)
              have hle := h.lt_length
              rw [List.length_append, List.length_singleton] at hle
              show p.2 = signals.length
              omega
        · refine List.rel_append hstand' (List.Forall₂.cons ?_ List.Forall₂.nil)
          exact ⟨k, getElem?_snoc.mpr (.inl hi), getElem?_snoc.mpr (.inr ⟨rfl, rfl⟩)⟩
      | opens k a => cases hpair
      | other => cases hpair

/-- **The pairs are the answers.**  The pairs handed out are, in the order of the responses, what
    stands at the places of a request and the response that answers it; no place is taken twice. -/
theorem paired_places (signals : List (Signal κ α β)) :
    ∃ places : List (ℕ × ℕ), places.Pairwise (fun p q => p.1 ≠ q.1 ∧ p.2 < q.2) ∧
      (∀ p, p ∈ places ↔ Answers signals p) ∧
      List.Forall₂ (StandAt signals) places (paired signals) := by
  obtain ⟨places, hsorted, hplaces, hstand⟩ := paired_answers signals
  refine ⟨places, ?_, hplaces, hstand⟩
  refine hsorted.imp_of_mem fun {p q} hp hq hlt => ⟨fun hsame => ?_, hlt⟩
  obtain rfl := ((hplaces p).mp hp).response ((hplaces q).mp hq) hsame
  exact Nat.lt_irrefl _ hlt

end

end Correlation
