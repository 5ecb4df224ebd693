import Mathlib.Data.List.Induction
import Mathlib.Tactic.TypeStar

namespace TransitionRun

variable {σ ε : Type*} (step : σ → ε → Option σ)

/-- A run plays a list of events. An event that is not enabled ends it with `none`. -/
def run (s : σ) : List ε → Option σ
  | [] => some s
  | e :: es => (step s e).bind fun s' => run s' es

/-- Every step of the run meets `cond`, read in the state before the step. -/
def AllSteps (cond : σ → ε → Prop) (s : σ) : List ε → Prop
  | [] => True
  | e :: es => cond s e ∧ ∀ s', step s e = some s' → AllSteps cond s' es

instance decidableAllSteps {cond : σ → ε → Prop} [∀ s e, Decidable (cond s e)] :
    ∀ (s : σ) (es : List ε), Decidable (AllSteps step cond s es)
  | _, [] => isTrue trivial
  | s, e :: es =>
    match h : step s e with
    | none => decidable_of_iff (cond s e) (by simp [AllSteps, h])
    | some t =>
      have : Decidable (AllSteps step cond t es) := decidableAllSteps t es
      decidable_of_iff (cond s e ∧ AllSteps step cond t es) (by simp [AllSteps, h])

/-- Every state of the run has `P`. -/
def AllStates (P : σ → Prop) (s : σ) : List ε → Prop
  | [] => P s
  | e :: es => P s ∧ ∀ s', step s e = some s' → AllStates P s' es

/-- What the steps of a run write, one after the other. -/
def outputs {α : Type*} (out : σ → ε → List α) (s : σ) : List ε → List α
  | [] => []
  | e :: es => (step s e).elim [] fun s' => out s e ++ outputs out s' es

variable {step}

theorem run_cons_eq_some {s s' : σ} {e : ε} {es : List ε} :
    run step s (e :: es) = some s' ↔ ∃ t, step s e = some t ∧ run step t es = some s' := by
  simp [run, Option.bind_eq_some_iff]

theorem run_append {s : σ} {es es' : List ε} :
    run step s (es ++ es') = (run step s es).bind fun t => run step t es' := by
  induction es generalizing s with
  | nil => rfl
  | cons e es ih =>
    cases he : step s e with
    | none => simp [run, he]
    | some t => simp [run, he, ih]

/-- What every enabled step preserves, every run preserves. -/
theorem run_invariant {P : σ → Prop} (hstep : ∀ s e s', P s → step s e = some s' → P s')
    {s s' : σ} {es : List ε} (hrun : run step s es = some s') (hs : P s) : P s' := by
  induction es generalizing s with
  | nil => exact Option.some.inj hrun ▸ hs
  | cons e es ih =>
    obtain ⟨t, ht, hrest⟩ := run_cons_eq_some.mp hrun
    exact ih hrest (hstep s e t hs ht)

/-- What every enabled step preserves about the events so far and the state, a
run has at its end. -/
theorem run_history {P : List ε → σ → Prop} {s₀ s : σ} {es : List ε}
    (hstep : ∀ es s e s', run step s₀ es = some s → P es s → step s e = some s' → P (es ++ [e]) s')
    (hrun : run step s₀ es = some s) (hs : P [] s₀) : P es s := by
  induction es using List.reverseRecOn generalizing s with
  | nil => exact Option.some.inj hrun ▸ hs
  | append_singleton es e ih =>
    rw [run_append, Option.bind_eq_some_iff] at hrun
    obtain ⟨t, ht, hrest⟩ := hrun
    obtain ⟨u, hu, hlast⟩ := run_cons_eq_some.mp hrest
    obtain rfl := Option.some.inj hlast
    exact hstep es t e u ht (ih ht) hu

/-- When each step keeps `P` exactly if it meets `cond`, so does a whole run. -/
theorem run_iff_allSteps {I P : σ → Prop} {cond : σ → ε → Prop}
    (hstep : ∀ s e s', I s → step s e = some s' → I s' ∧ (P s' ↔ P s ∧ cond s e))
    {s s' : σ} {es : List ε} (hrun : run step s es = some s') (hs : I s) :
    P s' ↔ P s ∧ AllSteps step cond s es := by
  induction es generalizing s with
  | nil =>
    obtain rfl := Option.some.inj hrun
    exact (and_iff_left trivial).symm
  | cons e es ih =>
    obtain ⟨t, ht, hrest⟩ := run_cons_eq_some.mp hrun
    obtain ⟨hI, hP⟩ := hstep s e t hs ht
    have hall : AllSteps step cond s (e :: es) ↔ cond s e ∧ AllSteps step cond t es := by
      simp [AllSteps, ht]
    rw [ih hrest hI, hP, hall, and_assoc]

/-- When a step from a state with `P` keeps `P` exactly if it meets `cond`, then
every state of a run has `P` exactly if every step meets `cond`. -/
theorem allStates_iff_allSteps {P : σ → Prop} {cond : σ → ε → Prop}
    (hstep : ∀ s e s', P s → step s e = some s' → (P s' ↔ cond s e))
    {s s' : σ} {es : List ε} (hrun : run step s es = some s') (hs : P s) :
    AllStates step P s es ↔ AllSteps step cond s es := by
  induction es generalizing s with
  | nil => exact iff_of_true hs trivial
  | cons e es ih =>
    obtain ⟨t, ht, hrest⟩ := run_cons_eq_some.mp hrun
    have hP := hstep s e t hs ht
    simp only [AllStates, AllSteps, ht, Option.some.injEq, forall_eq', hs, true_and]
    constructor
    · intro hall
      have htP : P t := by
        cases es with
        | nil => exact hall
        | cons => exact hall.1
      exact ⟨hP.mp htP, (ih hrest htP).mp hall⟩
    · rintro ⟨hcond, hall⟩
      exact (ih hrest (hP.mpr hcond)).mpr hall

def submitted {α : Type*} (submits : ε → Option α) (es : List ε) : List α := es.filterMap submits

theorem submitted_concat {α : Type*} (submits : ε → Option α) (es : List ε) (e : ε) :
    submitted submits (es ++ [e]) = submitted submits es ++ (submits e).toList := by
  rw [submitted, List.filterMap_append, submitted]
  cases h : submits e <;> simp [h]

theorem allSteps_concat {cond : σ → ε → Prop} {s t : σ} {es : List ε} {e : ε}
    (hrun : run step s es = some t) :
    AllSteps step cond s (es ++ [e]) ↔ AllSteps step cond s es ∧ cond t e := by
  induction es generalizing s with
  | nil =>
    obtain rfl := Option.some.inj hrun
    simp [AllSteps]
  | cons e' es ih =>
    obtain ⟨u, hu, hrest⟩ := run_cons_eq_some.mp hrun
    simp only [List.cons_append, AllSteps, hu, Option.some.injEq, forall_eq', ih hrest, and_assoc]

theorem AllStates.last {P : σ → Prop} {s s' : σ} {es : List ε} (h : AllStates step P s es)
    (hrun : run step s es = some s') : P s' := by
  induction es generalizing s with
  | nil => exact Option.some.inj hrun ▸ h
  | cons e es ih =>
    obtain ⟨t, ht, hrest⟩ := run_cons_eq_some.mp hrun
    exact ih (h.2 t ht) hrest

theorem allSteps_congr {I : σ → Prop} {cond cond' : σ → ε → Prop}
    (hstep : ∀ s e s', I s → step s e = some s' → I s' ∧ (cond s e ↔ cond' s e))
    {s s' : σ} {es : List ε} (hrun : run step s es = some s') (hs : I s) :
    AllSteps step cond s es ↔ AllSteps step cond' s es := by
  induction es generalizing s with
  | nil => exact Iff.rfl
  | cons e es ih =>
    obtain ⟨t, ht, hrest⟩ := run_cons_eq_some.mp hrun
    obtain ⟨hI, hcond⟩ := hstep s e t hs ht
    simp only [AllSteps, ht, Option.some.injEq, forall_eq', hcond, ih hrest hI]

theorem count_outputs {α : Type*} [BEq α] {out : σ → ε → List α} {f : σ → ℕ} {a : α}
    (hstep : ∀ s e s', step s e = some s' → f s' = f s + (out s e).count a)
    {s s' : σ} {es : List ε} (hrun : run step s es = some s') :
    f s' = f s + (outputs step out s es).count a := by
  induction es generalizing s with
  | nil =>
    obtain rfl := Option.some.inj hrun
    rfl
  | cons e es ih =>
    obtain ⟨t, ht, hrest⟩ := run_cons_eq_some.mp hrun
    rw [ih hrest, hstep s e t ht, outputs, ht, Option.elim_some, List.count_append, Nat.add_assoc]

/-- When a step of a certain kind takes one off a measure that no other step
raises, a run has at most as many of them as the measure had. -/
theorem countP_add_le {I : σ → Prop} {k : ε → Bool} {f : σ → ℕ}
    (hstep : ∀ s e s', I s → step s e = some s' →
      I s' ∧ f s' + (if k e then 1 else 0) ≤ f s) {s s' : σ} {es : List ε}
    (hrun : run step s es = some s') (hs : I s) : f s' + es.countP k ≤ f s := by
  induction es generalizing s with
  | nil => exact (Option.some.inj hrun ▸ Nat.le_refl (f s))
  | cons e es ih =>
    obtain ⟨t, ht, hrest⟩ := run_cons_eq_some.mp hrun
    obtain ⟨hI, hle⟩ := hstep s e t hs ht
    have hlater := ih hrest hI
    rw [List.countP_cons]
    omega

theorem outputs_append {α : Type*} {out : σ → ε → List α} {s t : σ} {es : List ε}
    (hrun : run step s es = some t) (es' : List ε) :
    outputs step out s (es ++ es') = outputs step out s es ++ outputs step out t es' := by
  induction es generalizing s with
  | nil =>
    obtain rfl := Option.some.inj hrun
    rfl
  | cons e es ih =>
    obtain ⟨u, hu, hrest⟩ := run_cons_eq_some.mp hrun
    rw [List.cons_append, outputs, outputs, hu, Option.elim_some, Option.elim_some, ih hrest,
      List.append_assoc]

theorem outputs_concat {α : Type*} {out : σ → ε → List α} {s t u : σ} {es : List ε} {e : ε}
    (hrun : run step s es = some t) (hstep : step t e = some u) :
    outputs step out s (es ++ [e]) = outputs step out s es ++ out t e := by
  rw [outputs_append hrun, outputs, hstep, Option.elim_some, outputs, List.append_nil]

theorem outputs_eq_nil {α : Type*} {I : σ → Prop} {out : σ → ε → List α}
    (hstep : ∀ s e s', I s → step s e = some s' → I s' ∧ out s e = []) {s : σ} (hs : I s)
    (es : List ε) : outputs step out s es = [] := by
  induction es generalizing s with
  | nil => rfl
  | cons e es ih =>
    cases ht : step s e with
    | none => rw [outputs, ht, Option.elim_none]
    | some t =>
      obtain ⟨hI, hnone⟩ := hstep s e t hs ht
      rw [outputs, ht, Option.elim_some, hnone, ih hI, List.nil_append]

theorem outputs_congr {α : Type*} {I : σ → Prop} {out out' : σ → ε → List α}
    (hstep : ∀ s e s', I s → step s e = some s' → I s' ∧ out s e = out' s e) {s : σ} (hs : I s)
    (es : List ε) : outputs step out s es = outputs step out' s es := by
  induction es generalizing s with
  | nil => rfl
  | cons e es ih =>
    cases ht : step s e with
    | none => rw [outputs, outputs, ht, Option.elim_none, Option.elim_none]
    | some t =>
      obtain ⟨hI, hout⟩ := hstep s e t hs ht
      rw [outputs, outputs, ht, Option.elim_some, Option.elim_some, hout, ih hI]

theorem forall_mem_outputs {α : Type*} {I : σ → Prop} {P : α → Prop} {out : σ → ε → List α}
    (hstep : ∀ s e s', I s → step s e = some s' → I s' ∧ ∀ a ∈ out s e, P a) {s : σ} (hs : I s)
    (es : List ε) : ∀ a ∈ outputs step out s es, P a := by
  induction es generalizing s with
  | nil => exact fun a ha => (List.not_mem_nil ha).elim
  | cons e es ih =>
    cases ht : step s e with
    | none =>
      rw [outputs, ht, Option.elim_none]
      exact fun a ha => (List.not_mem_nil ha).elim
    | some t =>
      obtain ⟨hI, hout⟩ := hstep s e t hs ht
      rw [outputs, ht, Option.elim_some]
      exact List.forall_mem_append.mpr ⟨hout, ih hI⟩

theorem length_outputs {α : Type*} {k : ε → Bool} {out : σ → ε → List α}
    (hstep : ∀ s e, (out s e).length = if k e then 1 else 0) {s s' : σ} {es : List ε}
    (hrun : run step s es = some s') : (outputs step out s es).length = es.countP k := by
  induction es generalizing s with
  | nil => rfl
  | cons e es ih =>
    obtain ⟨t, ht, hrest⟩ := run_cons_eq_some.mp hrun
    rw [outputs, ht, Option.elim_some, List.length_append, hstep, ih hrest, List.countP_cons,
      Nat.add_comm]

/-- When whatever was written so far is bounded by the state, and what a step writes
comes behind everything with that bound, the output of a run is in order. -/
theorem pairwise_outputs {α : Type*} {I : σ → Prop} {B : σ → α → Prop} {R : α → α → Prop}
    (out : σ → ε → List α)
    (hstep : ∀ s e s', I s → step s e = some s' → I s' ∧ (∀ a, B s a → B s' a) ∧
      (out s e).Pairwise R ∧ ∀ b ∈ out s e, B s' b ∧ ∀ a, B s a → R a b)
    {s s' : σ} {es : List ε} (hrun : run step s es = some s') (hs : I s) :
    (outputs step out s es).Pairwise R ∧ ∀ a ∈ outputs step out s es, B s' a := by
  refine (run_history (P := fun es s' => I s' ∧ (outputs step out s es).Pairwise R ∧
    ∀ a ∈ outputs step out s es, B s' a) (fun past t e u hpast ht htu => ?_) hrun
    ⟨hs, List.Pairwise.nil, fun a ha => (List.not_mem_nil ha).elim⟩).2
  obtain ⟨hI, hordered, hbound⟩ := ht
  obtain ⟨hI', hkeep, hnew, hbehind⟩ := hstep t e u hI htu
  rw [outputs_concat hpast htu]
  refine ⟨hI', List.pairwise_append.mpr ⟨hordered, hnew, fun a ha b hb => ?_⟩, ?_⟩
  · exact (hbehind b hb).2 a (hbound a ha)
  · exact List.forall_mem_append.mpr
      ⟨fun a ha => hkeep a (hbound a ha), fun b hb => (hbehind b hb).1⟩

theorem filterMap_outputs {α β : Type*} (g : α → Option β) (out : σ → ε → List α) (s : σ)
    (es : List ε) : (outputs step out s es).filterMap g =
      outputs step (fun s e => (out s e).filterMap g) s es := by
  induction es generalizing s with
  | nil => rfl
  | cons e es ih =>
    cases ht : step s e with
    | none => simp [outputs, ht]
    | some t => simp [outputs, ht, ih]

/-- Forward simulation: when each step is matched by a run of another system that
ends in the abstraction of its state and writes the same, so is a whole run. -/
theorem simulates {τ δ α : Type*} {stepB : τ → δ → Option τ} {outB : τ → δ → List α} {I : σ → Prop}
    {abs : σ → τ} {trace : σ → ε → List δ} {out : σ → ε → List α}
    (hstep : ∀ s e s', I s → step s e = some s' → I s' ∧
      run stepB (abs s) (trace s e) = some (abs s') ∧
        out s e = outputs stepB outB (abs s) (trace s e))
    {s s' : σ} {es : List ε} (hrun : run step s es = some s') (hs : I s) :
    I s' ∧ run stepB (abs s) (outputs step trace s es) = some (abs s') ∧
      outputs step out s es = outputs stepB outB (abs s) (outputs step trace s es) := by
  induction es generalizing s with
  | nil =>
    obtain rfl := Option.some.inj hrun
    exact ⟨hs, rfl, rfl⟩
  | cons e es ih =>
    obtain ⟨t, ht, hrest⟩ := run_cons_eq_some.mp hrun
    obtain ⟨hI, hmatch, hout⟩ := hstep s e t hs ht
    obtain ⟨hlast, hlater, houts⟩ := ih hrest hI
    simp only [outputs, ht, Option.elim_some]
    refine ⟨hlast, ?_, ?_⟩
    · rw [run_append, hmatch, Option.bind_some]
      exact hlater
    · rw [outputs_append hmatch, hout, houts]

end TransitionRun
