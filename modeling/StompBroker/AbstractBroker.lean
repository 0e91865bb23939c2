import StompBroker.TransitionSystem

/-! What a broker of messages is for, in terms of the events alone: who is connected, which subscriptions
stand, and what is delivered to whom. A machine that keeps only the present computes the same. -/
namespace StompBroker.AbstractBroker
open TransitionSystem
variable {κ σ α μ : Type*}

/-- Numbers tell connections apart; a connection asks under one of its sessions. -/
inductive Event (κ σ α μ : Type*)
  | connect (number : κ)
  | disconnect (number : κ) (session : σ)
  | purge (number : κ) (session : σ)
  | subscribe (number : κ) (sub : α)
  | unsubscribe (number : κ) (sub : α)
  | publish (number : κ) (message : μ)
  | other

/-- Who owns a subscription, which messages it wants, and who gets a message that only one subscription may have;
the choice depends on how many such messages there were before. -/
structure Rules (σ α μ : Type*) where
  owner : α → σ
  Wants : α → μ → Prop
  Exclusive : μ → Prop
  choose : ℕ → List α → List α

variable (R : Rules σ α μ) {es before : List (Event κ σ α μ)} {e : Event κ σ α μ}

def Connects (number : κ) (_ : List (Event κ σ α μ)) (e : Event κ σ α μ) : Prop := e = .connect number

def HangsUp (number : κ) (_ : List (Event κ σ α μ)) (e : Event κ σ α μ) : Prop :=
  ∃ session, e = .disconnect number session ∨ e = .purge number session

def Connected (es : List (Event κ σ α μ)) (number : κ) : Prop := Since (Connects number) (HangsUp number) es

open Classical in
noncomputable def entered (before : List (Event κ σ α μ)) : Event κ σ α μ → List α
  | .subscribe number sub => if Connected before number then [sub] else []
  | _ => []

def TakesOut (before : List (Event κ σ α μ)) : Event κ σ α μ → α → Prop
  | .disconnect number session, sub => Connected before number ∧ R.owner sub = session
  | .purge _ session, sub => R.owner sub = session
  | .unsubscribe number sub', sub => Connected before number ∧ sub = sub'
  | _, _ => False

/-- The subscriptions that no later event took out, in the order in which they were entered. -/
noncomputable def subscriptions (es : List (Event κ σ α μ)) : List α := Standing entered (TakesOut R) es

open Classical in
noncomputable def wanting (R : Rules σ α μ) (subs : List α) (message : μ) : List α :=
  subs.filter fun sub => R.Wants sub message

def TakesTurn (before : List (Event κ σ α μ)) : Event κ σ α μ → Prop
  | .publish number message => Connected before number ∧ R.Exclusive message ∧
      wanting R (subscriptions R before) message ≠ []
  | _ => False

open Classical in
noncomputable def turns (es : List (Event κ σ α μ)) : ℕ := (moments es).countP fun p => TakesTurn R p.1 p.2

open Classical in
noncomputable def recipients (R : Rules σ α μ) (subs : List α) (turns : ℕ) (message : μ) : List α :=
  if R.Exclusive message then R.choose turns (wanting R subs message) else wanting R subs message

open Classical in
noncomputable def delivered (before : List (Event κ σ α μ)) : Event κ σ α μ → List (μ × α)
  | .publish number message =>
      if Connected before number then
        (recipients R (subscriptions R before) (turns R before) message).map fun sub => (message, sub)
      else []
  | _ => []

noncomputable def deliveries (es : List (Event κ σ α μ)) : List (μ × α) := (moments es).flatMap fun p => delivered R p.1 p.2

structure State (κ α μ : Type*) where
  connected : Set κ
  subs : List α
  turns : ℕ
  log : List (μ × α)

def start : State κ α μ := ⟨∅, [], 0, []⟩

open Classical in
noncomputable def step (R : Rules σ α μ) (s : State κ α μ) : Event κ σ α μ → State κ α μ
  | .connect number => { s with connected := insert number s.connected }
  | .disconnect number session =>
      if number ∈ s.connected then
        { s with connected := s.connected \ {number}, subs := s.subs.filter fun sub => R.owner sub ≠ session }
      else s
  | .purge number session =>
      { s with connected := s.connected \ {number}, subs := s.subs.filter fun sub => R.owner sub ≠ session }
  | .subscribe number sub => if number ∈ s.connected then { s with subs := s.subs ++ [sub] } else s
  | .unsubscribe number sub' =>
      if number ∈ s.connected then { s with subs := s.subs.filter fun sub => sub ≠ sub' } else s
  | .publish number message =>
      if number ∈ s.connected then
        { s with
          turns := if R.Exclusive message ∧ wanting R s.subs message ≠ [] then s.turns + 1 else s.turns
          log := s.log ++ (recipients R s.subs s.turns message).map fun sub => (message, sub) }
      else s
  | .other => s

noncomputable def after (R : Rules σ α μ) (es : List (Event κ σ α μ)) : State κ α μ := es.foldl (step R) start

theorem after_snoc : after R (es ++ [e]) = step R (after R es) e := by
  rw [after, List.foldl_append]
  rfl

theorem connected_snoc {number : κ} :
    Connected (es ++ [e]) number ↔ e = .connect number ∨ Connected es number ∧ ¬ HangsUp number es e := since_snoc

open Classical in
theorem subscriptions_snoc : subscriptions R (es ++ [e]) =
    (subscriptions R es).filter (fun sub => ¬ TakesOut R es e sub) ++ entered es e := standing_snoc _ _ es e

open Classical in
theorem turns_snoc : turns R (es ++ [e]) = turns R es + if TakesTurn R es e then 1 else 0 := by
  simp [turns, moments_snoc, List.countP_append]

theorem deliveries_snoc : deliveries R (es ++ [e]) = deliveries R es ++ delivered R es e := by
  simp [deliveries, moments_snoc]

/-- The history of the events, as a state of the machine. -/
noncomputable def summary (es : List (Event κ σ α μ)) : State κ α μ :=
  ⟨{number | Connected es number}, subscriptions R es, turns R es, deliveries R es⟩

section Snoc
variable (es) (e)

theorem connected_step (n : κ) : Connected (es ++ [e]) n ↔ n ∈ (step R (summary R es) e).connected := by
  rw [connected_snoc]
  cases e with
  | connect => simp [step, summary, HangsUp, eq_comm]
  | disconnect number =>
    by_cases hup : Connected es number
    · simp [step, summary, HangsUp, hup, eq_comm]
    · have hne : Connected es n → number ≠ n := by
        rintro hn rfl
        exact hup hn
      simpa [step, summary, HangsUp, hup] using hne
  | purge => simp [step, summary, HangsUp, eq_comm]
  | subscribe number | unsubscribe number | publish number =>
    by_cases hup : Connected es number <;> simp [step, summary, HangsUp, hup]
  | other => simp [step, summary, HangsUp]

theorem subscriptions_step : subscriptions R (es ++ [e]) = (step R (summary R es) e).subs := by
  classical
  rw [subscriptions_snoc]
  cases e with
  | purge => exact List.append_nil _
  | connect | other => simp [step, summary, TakesOut, entered]
  | disconnect number | subscribe number | unsubscribe number | publish number =>
    by_cases hup : Connected es number <;> simp [step, summary, TakesOut, entered, hup]

theorem turns_step : turns R (es ++ [e]) = (step R (summary R es) e).turns := by
  rw [turns_snoc]
  cases e with
  | connect | purge | other => simp [step, summary, TakesTurn]
  | disconnect number | subscribe number | unsubscribe number =>
    by_cases hup : Connected es number <;> simp [step, summary, TakesTurn, hup]
  | publish number message =>
    by_cases hup : Connected es number
    · by_cases hturn : R.Exclusive message ∧ wanting R (subscriptions R es) message ≠ [] <;>
        simp [step, summary, TakesTurn, hup, hturn]
    · simp [step, summary, TakesTurn, hup]

theorem deliveries_step : deliveries R (es ++ [e]) = (step R (summary R es) e).log := by
  rw [deliveries_snoc]
  cases e with
  | connect | purge | other => simp [step, summary, delivered]
  | disconnect number | subscribe number | unsubscribe number | publish number =>
    by_cases hup : Connected es number <;> simp [step, summary, delivered, hup]

end Snoc

/-- The machine that keeps only the present knows the history. -/
theorem after_eq_summary (es : List (Event κ σ α μ)) : after R es = summary R es := by
  induction es using List.reverseRecOn with
  | nil =>
    have hnone : ∀ n, ¬ Connected ([] : List (Event κ σ α μ)) n := fun n => not_since_nil
    simp [after, start, summary, hnone, subscriptions, Standing, turns, deliveries, moments]
  | append_singleton es e ih =>
    have hconnected : {n | Connected (es ++ [e]) n} = (step R (summary R es) e).connected := Set.ext (connected_step R es e)
    rw [after_snoc, ih]
    nth_rewrite 2 [summary]
    rw [hconnected, subscriptions_step, turns_step, deliveries_step]

end StompBroker.AbstractBroker
