import Mathlib.Tactic

/-! Labelled transition systems and their finite runs. A run lists its events in order;
a property of all reached states is proved by one step lemma. -/
namespace StompBroker.TransitionSystem
variable {σ ε : Type*}

inductive Run (step : σ → ε → σ → Prop) : σ → List ε → σ → Prop
  | nil (s : σ) : Run step s [] s
  | snoc {s t u : σ} {es : List ε} {e : ε} (prior : Run step s es t) (last : step t e u) :
      Run step s (es ++ [e]) u

/-- Only the steps that meet a condition on the state before them and their event. -/
def Guarded (cond : σ → ε → Prop) (step : σ → ε → σ → Prop) (s : σ) (e : ε) (t : σ) : Prop :=
  cond s e ∧ step s e t

variable {step step' : σ → ε → σ → Prop} {s t u : σ} {es fs : List ε} {e : ε}

theorem Run.one (h : step s e t) : Run step s [e] t := .snoc (.nil s) h

theorem Run.append (h : Run step s es t) (g : Run step t fs u) : Run step s (es ++ fs) u := by
  induction g with
  | nil => simpa using h
  | snoc _ last ih =>
    rw [← List.append_assoc]
    exact .snoc ih last

theorem Run.cons (h : step s e t) (g : Run step t es u) : Run step s (e :: es) u :=
  (Run.one h).append g

/-- What holds at the start and survives every step holds at the end. -/
theorem Run.invariant {I : σ → Prop} (h : Run step s es t) (h0 : I s)
    (hstep : ∀ s e t, I s → step s e t → I t) : I t := by
  induction h with
  | nil => exact h0
  | snoc _ last ih => exact hstep _ _ _ ih last

theorem Run.history {I : List ε → σ → Prop} (h : Run step s es t) (h0 : I [] s)
    (hstep : ∀ es s e t, I es s → step s e t → I (es ++ [e]) t) : I es t := by
  induction h with
  | nil => exact h0
  | snoc _ last ih => exact hstep _ _ _ _ ih last

theorem Run.mono (h : Run step s es t) (hsub : ∀ s e t, step s e t → step' s e t) :
    Run step' s es t := by
  induction h with
  | nil => exact .nil _
  | snoc _ last ih => exact .snoc ih (hsub _ _ _ last)

/-- A forward simulation: every step is matched by a run over its trace, so every run is. -/
theorem Run.simulate {σ' ε' : Type*} {next : σ' → ε' → σ' → Prop} {R : σ → σ' → Prop} {trace : ε → List ε'}
    {s' : σ'}
    (h : Run step s es t) (h0 : R s s')
    (hstep : ∀ s e t s', e ∈ es → R s s' → step s e t → ∃ t', R t t' ∧ Run next s' (trace e) t') :
    ∃ t', R t t' ∧ Run next s' (es.flatMap trace) t' := by
  induction h with
  | nil => exact ⟨s', h0, .nil s'⟩
  | snoc _ last ih =>
    obtain ⟨m, hm, hrun⟩ := ih fun s e t s' he => hstep s e t s' (List.mem_append_left _ he)
    obtain ⟨t', ht, hlast⟩ := hstep _ _ _ m (by simp) hm last
    refine ⟨t', ht, ?_⟩
    rw [List.flatMap_append, List.flatMap_singleton]
    exact hrun.append hlast

def Steps (f : σ → ε → Option σ) (s : σ) (e : ε) (t : σ) : Prop := f s e = some t

def exec (f : σ → ε → Option σ) : σ → List ε → Option σ
  | s, [] => some s
  | s, e :: es => (f s e).bind fun t => exec f t es

theorem exec_cons {f : σ → ε → Option σ} (h : f s e = some t) (es : List ε) :
    exec f s (e :: es) = exec f t es := by
  rw [exec, h, Option.bind_some]

theorem exec_append (f : σ → ε → Option σ) (s : σ) (es fs : List ε) :
    exec f s (es ++ fs) = (exec f s es).bind fun t => exec f t fs := by
  induction es generalizing s with
  | nil => rfl
  | cons e es ih =>
    simp only [List.cons_append, exec, Option.bind_assoc]
    exact congrArg _ (funext fun t => ih t)

theorem run_of_exec {f : σ → ε → Option σ} (h : exec f s es = some t) : Run (Steps f) s es t := by
  induction es generalizing s with
  | nil =>
    simp only [exec, Option.some.injEq] at h
    exact h ▸ .nil s
  | cons e es ih =>
    obtain ⟨u, hu, h⟩ := Option.bind_eq_some_iff.mp h
    exact .cons hu (ih h)

theorem exists_run_of_exec {f : σ → ε → Option σ} {P : σ → Prop} [DecidablePred P]
    (h : (exec f s es).map (fun t => decide (P t)) = some true) :
    ∃ t, Run (Steps f) s es t ∧ P t := by
  obtain ⟨t, ht, hp⟩ := Option.map_eq_some_iff.mp h
  exact ⟨t, run_of_exec ht, of_decide_eq_true hp⟩

/-- The same with a decidable guard checked before every step. -/
theorem exists_guarded_run_of_exec {f : σ → ε → Option σ} {P : σ → Prop} [DecidablePred P]
    {cond : σ → ε → Prop} [∀ s e, Decidable (cond s e)]
    (h : (exec (fun s e => if cond s e then f s e else none) s es).map (fun t => decide (P t)) =
      some true) :
    ∃ t, Run (Guarded cond (Steps f)) s es t ∧ P t := by
  obtain ⟨t, hrun, hp⟩ := exists_run_of_exec h
  refine ⟨t, hrun.mono ?_, hp⟩
  intro s e t hs
  simp only [Steps] at hs
  split_ifs at hs with hc
  exact ⟨hc, hs⟩

/-- Some event met `P` and none after it met `Q`; both may look at the events before. -/
def Since (P Q : List ε → ε → Prop) (es : List ε) : Prop :=
  ∃ before e after, es = before ++ e :: after ∧ P before e ∧
    ∀ b d a, after = b ++ d :: a → ¬ Q (before ++ e :: b) d

variable {P Q : List ε → ε → Prop}

theorem not_since_nil : ¬ Since P Q [] := by
  rintro ⟨before, e, after, h, -⟩
  simp at h

theorem since_snoc : Since P Q (es ++ [e]) ↔ P es e ∨ Since P Q es ∧ ¬ Q es e := by
  constructor
  · rintro ⟨before, d, after, h, hp, hq⟩
    rcases List.eq_nil_or_concat after with rfl | ⟨after, last, rfl⟩
    · obtain ⟨rfl, rfl⟩ := List.append_inj' h rfl |>.imp_right List.singleton_inj.1
      exact .inl hp
    · rw [List.concat_eq_append, ← List.cons_append, ← List.append_assoc] at h
      obtain ⟨rfl, rfl⟩ := List.append_inj' h rfl |>.imp_right List.singleton_inj.1
      refine .inr ⟨⟨before, d, after, rfl, hp, fun b f a ha => ?_⟩, hq after e [] (by simp)⟩
      exact hq b f (a ++ [e]) (by simp [ha])
  · rintro (hp | ⟨⟨before, d, after, rfl, hp, hq⟩, hlast⟩)
    · exact ⟨es, e, [], rfl, hp, by simp⟩
    · refine ⟨before, d, after ++ [e], by simp, hp, fun b f a ha => ?_⟩
      rcases List.eq_nil_or_concat a with rfl | ⟨a, last, rfl⟩
      · obtain ⟨rfl, rfl⟩ := List.append_inj' ha rfl |>.imp_right List.singleton_inj.1
        exact hlast
      · rw [List.concat_eq_append, ← List.cons_append, ← List.append_assoc] at ha
        exact hq b f a (List.append_inj' ha rfl).1

theorem since_singleton : Since P Q [e] ↔ P [] e := by
  rw [← List.nil_append [e], since_snoc]
  simp [not_since_nil]

/-- A flag that events set and clear is up exactly when it was set and not cleared since. -/
theorem Run.since {F : σ → Prop} (h : Run step s es t) (h0 : ¬ F s)
    (hstep : ∀ es u e v, Run step s es u → step u e v → (F v ↔ P es e ∨ F u ∧ ¬ Q es e)) :
    F t ↔ Since P Q es := by
  induction h with
  | nil => exact iff_of_false h0 not_since_nil
  | snoc prior last ih => rw [hstep _ _ _ _ prior last, since_snoc, ih]

def moments (es : List ε) : List (List ε × ε) :=
  (List.range es.length).filterMap fun i => es[i]?.map fun e => (es.take i, e)

theorem moments_snoc (es : List ε) (e : ε) : moments (es ++ [e]) = moments es ++ [(es, e)] := by
  rw [moments, List.length_append, List.length_singleton, List.range_succ, List.filterMap_append, moments]
  congr 1
  · refine List.filterMap_congr fun i hi => ?_
    have hlt : i < es.length := List.mem_range.1 hi
    rw [List.getElem?_append_left hlt, List.take_append_of_le_length hlt.le]
  · simp

open Classical in
/-- What the events entered and no later one took out, in order. -/
noncomputable def Standing {α : Type*} (entered : List ε → ε → List α) (TakesOut : List ε → ε → α → Prop)
    (es : List ε) : List α :=
  (List.range es.length).flatMap fun i =>
    (es[i]?.elim [] (entered (es.take i))).filter fun a =>
      ∀ j e, i < j → es[j]? = some e → ¬ TakesOut (es.take j) e a

open Classical in
theorem standing_snoc {α : Type*} (entered : List ε → ε → List α) (TakesOut : List ε → ε → α → Prop)
    (es : List ε) (e : ε) :
    Standing entered TakesOut (es ++ [e]) =
      (Standing entered TakesOut es).filter (fun a => ¬ TakesOut es e a) ++ entered es e := by
  rw [Standing, List.length_append, List.length_singleton, List.range_succ, List.flatMap_append, Standing,
    List.filter_flatMap]
  congr 1
  · refine List.flatMap_congr fun i hi => ?_
    have hlt : i < es.length := List.mem_range.1 hi
    rw [List.getElem?_append_left hlt, List.take_append_of_le_length hlt.le, List.filter_filter]
    refine List.filter_congr fun a _ => ?_
    rw [Bool.eq_iff_iff, Bool.and_eq_true, decide_eq_true_iff, decide_eq_true_iff, decide_eq_true_iff]
    constructor
    · intro h
      refine ⟨?_, fun j d hij hd => ?_⟩
      · simpa using h es.length e hlt (by simp)
      · have hj : j < es.length := (List.getElem?_eq_some_iff.1 hd).1
        simpa [List.take_append_of_le_length hj.le] using h j d hij (by rwa [List.getElem?_append_left hj])
    · rintro ⟨hlast, h⟩ j d hij hd
      by_cases hj : j < es.length
      · rw [List.take_append_of_le_length hj.le]
        exact h j d hij (by rwa [List.getElem?_append_left hj] at hd)
      · have hle := (List.getElem?_eq_some_iff.1 hd).1
        rw [List.length_append, List.length_singleton] at hle
        obtain rfl : j = es.length := by omega
        obtain rfl : e = d := by simpa using hd
        simpa using hlast
  · have hall : ∀ a, ∀ j d, es.length < j → (es ++ [e])[j]? = some d → ¬ TakesOut ((es ++ [e]).take j) d a := by
      intro a j d hj hd
      have hle := (List.getElem?_eq_some_iff.1 hd).1
      rw [List.length_append, List.length_singleton] at hle
      omega
    rw [List.flatMap_singleton, List.getElem?_concat_length, Option.elim_some, List.take_left]
    exact List.filter_eq_self.2 fun a _ => decide_eq_true (hall a)

end StompBroker.TransitionSystem
