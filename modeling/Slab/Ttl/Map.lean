import Mathlib.Data.List.AList
import Mathlib.Logic.Function.Basic

/-!
# Maps whose entries expire

A map keeps what has been written last under a key, with the time and the period of the write. How
long an entry is visible is a parameter, and so is which writes are accepted.

## Main definitions

- `Lifetime` — which writes are accepted, and when an entry is visible
- `step`, `replies` — the operations of a map, and what a run of them answers
- `Along` — a condition on every operation of a run, in the state before it

## Main results

- `replies_eq_iff` — two lifetimes answer a run alike exactly if they agree on each entry that is
  read and on each write
- `replies_eq_of_simulation` — an implementation that keeps a relation to the map answers like it
-/

namespace Ttl

/-- What a run of operations answers. -/
def replies {σ ι ο : Type} (step : σ → ι → σ × ο) : σ → List ι → List ο
  | _, [] => []
  | s, i :: is => (step s i).2 :: replies step (step s i).1 is

/-- A condition on every input of a run, in the state before it. -/
def Along {σ ι ο : Type} (step : σ → ι → σ × ο) (P : σ → ι → Prop) : σ → List ι → Prop
  | _, [] => True
  | s, i :: is => P s i ∧ Along step P (step s i).1 is

/-- Which writes are accepted, and when an entry is visible. -/
structure Lifetime (τ π : Type) where
  accepts : (written : τ) → (period : π) → Bool
  live : (written : τ) → (period : π) → (now : τ) → Bool

inductive Op (κ ν π : Type) where
  | set (key : κ) (value : ν) (period : π)
  | get (key : κ)
  | take (key : κ)
  | del (key : κ)
  | sweep

inductive Reply (ν : Type) where
  | done
  | failed
  | value (found : Option ν)
deriving DecidableEq

structure Entry (ν τ π : Type) where
  value : ν
  written : τ
  period : π

section Map

variable {κ ν τ π : Type} [DecidableEq κ] {L L' : Lifetime τ π}
  {s : κ → Option (Entry ν τ π)} {now : τ}

/-- What is visible of an entry. -/
def Lifetime.shown (L : Lifetime τ π) (now : τ) (e : Option (Entry ν τ π)) : Option ν :=
  e.bind fun e => if L.live e.written e.period now then some e.value else none

def step (L : Lifetime τ π) (s : κ → Option (Entry ν τ π)) (input : τ × Op κ ν π) :
    (κ → Option (Entry ν τ π)) × Reply ν :=
  match input.2 with
  | .set key value period =>
    if L.accepts input.1 period then
      (Function.update s key (some ⟨value, input.1, period⟩), .done)
    else (s, .failed)
  | .get key => (s, .value (L.shown input.1 (s key)))
  | .take key => (Function.update s key none, .value (L.shown input.1 (s key)))
  | .del key => (Function.update s key none, .done)
  | .sweep => (s, .done)

/-- The lifetimes agree on what an operation needs to know. -/
def Same (L L' : Lifetime τ π) (s : κ → Option (Entry ν τ π)) (input : τ × Op κ ν π) : Prop :=
  match input.2 with
  | .set _ _ period => L.accepts input.1 period = L'.accepts input.1 period
  | .get key | .take key => ∀ e, s key = some e →
      L.live e.written e.period input.1 = L'.live e.written e.period input.1
  | .del _ | .sweep => True

theorem shown_eq_iff (e : Option (Entry ν τ π)) : L.shown now e = L'.shown now e ↔
    ∀ e', e = some e' → L.live e'.written e'.period now = L'.live e'.written e'.period now := by
  cases e with
  | none => simp [Lifetime.shown]
  | some e =>
    cases hlive : L.live e.written e.period now <;>
      cases hlive' : L'.live e.written e.period now <;>
        simp [Lifetime.shown, hlive, hlive']

/-- One operation is answered alike exactly if the lifetimes agree on what it needs to know. -/
theorem step_reply_eq_iff (input : τ × Op κ ν π) :
    (step L s input).2 = (step L' s input).2 ↔ Same L L' s input := by
  obtain ⟨now, op⟩ := input
  cases op with
  | set key value period =>
    cases haccepts : L.accepts now period <;> cases haccepts' : L'.accepts now period <;>
      simp [step, Same, haccepts, haccepts']
  | get key => simp only [step, Same, Reply.value.injEq, shown_eq_iff]
  | take key => simp only [step, Same, Reply.value.injEq, shown_eq_iff]
  | del key => simp [step, Same]
  | sweep => simp [step, Same]

/-- Then the maps are the same after it. -/
theorem step_state_eq {input : τ × Op κ ν π} (h : Same L L' s input) :
    (step L s input).1 = (step L' s input).1 := by
  obtain ⟨now, op⟩ := input
  cases op with
  | set key value period =>
    have haccepts : L.accepts now period = L'.accepts now period := h
    simp only [step, haccepts]
  | get key => rfl
  | take key => rfl
  | del key => rfl
  | sweep => rfl

theorem replies_eq_iff (run : List (τ × Op κ ν π)) (s : κ → Option (Entry ν τ π)) :
    replies (step L) s run = replies (step L') s run ↔ Along (step L') (Same L L') s run := by
  induction run generalizing s with
  | nil => simp [replies, Along]
  | cons input run ih =>
    rw [replies, replies, Along, List.cons.injEq, step_reply_eq_iff]
    exact and_congr_right fun h => by rw [step_state_eq h, ih]

theorem along_congr {P Q : (κ → Option (Entry ν τ π)) → τ × Op κ ν π → Prop}
    (h : ∀ s input, P s input ↔ Q s input) {run : List (τ × Op κ ν π)}
    {s : κ → Option (Entry ν τ π)} : Along (step L) P s run ↔ Along (step L) Q s run := by
  have hPQ : P = Q := by
    funext s input
    exact propext (h s input)
  rw [hPQ]

theorem along_forall {β : Type} {P : β → (κ → Option (Entry ν τ π)) → τ × Op κ ν π → Prop}
    {run : List (τ × Op κ ν π)} : ∀ {s}, Along (step L) (fun s input => ∀ b, P b s input) s run ↔
      ∀ b, Along (step L) (P b) s run := by
  induction run with
  | nil => simp [Along]
  | cons input run ih =>
    intro s
    simp only [Along, ih]
    exact forall_and.symm

end Map

section Simulation

variable {κ ν τ π σ : Type} [DecidableEq κ] [Preorder τ] {L : Lifetime τ π}
  {impl : σ → τ × Op κ ν π → σ × Reply ν}
  {R : τ → σ → (κ → Option (Entry ν τ π)) → Prop}

/-- An implementation that keeps a relation to the map, as time goes on, answers like it. -/
theorem replies_eq_of_simulation
    (hstep : ∀ now c s op, R now c s → (impl c (now, op)).2 = (step L s (now, op)).2 ∧
      R now (impl c (now, op)).1 (step L s (now, op)).1)
    (hlater : ∀ now now' c s, now ≤ now' → R now c s → R now' c s)
    {run : List (τ × Op κ ν π)} (hrun : run.Pairwise fun a b => a.1 ≤ b.1) :
    ∀ {now c s}, (∀ a ∈ run, now ≤ a.1) → R now c s →
      replies impl c run = replies (step L) s run := by
  induction hrun with
  | nil => exact fun _ _ => rfl
  | @cons a run ha _ ih =>
    intro now c s hnow hR
    obtain ⟨time, op⟩ := a
    obtain ⟨hreply, hR'⟩ :=
      hstep time c s op (hlater now time c s (hnow _ List.mem_cons_self) hR)
    rw [replies, replies, hreply, ih ha hR']

end Simulation

end Ttl
