import Tracelet.Latency

namespace Tracelet
open KernelMap TransitionRun

namespace Latency
open Bpf

/-- The start time came from the enter firing of the very call that ended. -/
def Sample.Paired (x : Sample) : Prop := x.owner = some x.call

/-- An entry of the start map has the owner on record, and a call that is in
progress owns the entry of its thread exactly if it stored it. -/
structure Traced (s : System) : Prop where
  owned : ∀ t, (s.owner t).isSome = (s.maps.latencyStart.lookup t).isSome
  ownerLe : ∀ t i, s.owner t = some i → i ≤ s.calls
  stored : ∀ t c, s.inside t = some c → c.stored = true →
    s.owner t = some c.id ∧ c.inherited = false
  unstored : ∀ t c, s.inside t = some c → c.stored = false →
    s.owner t ≠ some c.id ∧ c.inherited = (s.maps.latencyStart.lookup t).isSome

theorem Traced.enter {s : System} (h : Traced s) {t : Thread} (k : SyscallKind) (now : UInt64)
    (admitted : Bool) : Traced (s.enter t k now admitted) := by
  refine ⟨fun u => ?_, fun u i hi => ?_, fun u c hu hc => ?_, fun u c hu hc => ?_⟩
  · rw [owner_enter, lookup_enter]
    by_cases hstores : u = t ∧ s.stores t k now admitted = true
    · rw [if_pos hstores, if_pos hstores]
      rfl
    · rw [if_neg hstores, if_neg hstores, h.owned]
  · change i ≤ s.calls + 1
    rw [owner_enter] at hi
    by_cases hstores : u = t ∧ s.stores t k now admitted = true
    · rw [if_pos hstores] at hi
      exact (Option.some.inj hi).ge
    · rw [if_neg hstores] at hi
      exact (h.ownerLe u i hi).trans (Nat.le_succ _)
  · rw [owner_enter]
    obtain ⟨hut, rfl⟩ | ⟨hut, hu⟩ := inside_enter_cases _ _ _ _ _ _ hu
    · have hs : s.stores t k now admitted = true := hc
      rw [if_pos ⟨hut, hs⟩, hs]
      exact ⟨rfl, rfl⟩
    · rw [if_neg fun hx => hut hx.1]
      exact h.stored u c hu hc
  · rw [owner_enter, lookup_enter]
    obtain ⟨hut, rfl⟩ | ⟨hut, hu⟩ := inside_enter_cases _ _ _ _ _ _ hu
    · have hs : s.stores t k now admitted = false := hc
      have hno : ¬ (u = t ∧ s.stores t k now admitted = true) := by simp [hs]
      rw [if_neg hno, if_neg hno, hs, hut]
      -- the new id is larger than that of any earlier owner
      exact ⟨fun hi => absurd (h.ownerLe t _ hi) (Nat.not_succ_le_self _), rfl⟩
    · rw [if_neg fun hx => hut hx.1, if_neg fun hx => hut hx.1]
      exact h.unstored u c hu hc

theorem Traced.exit {s : System} (h : Traced s) (t : Thread) (c : Call) (now : UInt64) :
    Traced (s.exit t c now) := by
  refine ⟨fun u => ?_, fun u i hi => ?_, fun u d hu hd => ?_, fun u d hu hd => ?_⟩
  · rw [owner_exit, lookup_exit]
    by_cases hx : u = t ∧ Program.exit c.syscall ∈ s.attached
    · rw [if_pos hx, if_pos hx]
      rfl
    · rw [if_neg hx, if_neg hx, h.owned]
  · rw [owner_exit] at hi
    split_ifs at hi
    exact h.ownerLe u i hi
  · obtain ⟨hut, hu⟩ := inside_exit_cases s t u now c hu
    rw [owner_exit, if_neg fun hx => hut hx.1]
    exact h.stored u d hu hd
  · obtain ⟨hut, hu⟩ := inside_exit_cases s t u now c hu
    rw [owner_exit, lookup_exit, if_neg fun hx => hut hx.1, if_neg fun hx => hut hx.1]
    exact h.unstored u d hu hd

theorem Traced.step {s s' : System} {e : Event} (h : Traced s)
    (hstep : Latency.step s e = some s') : Traced s' := by
  rcases step_cases hstep with ⟨-, p, ps, -, rfl⟩ | ⟨t, k, now, admitted, -, -, -, rfl⟩ |
    ⟨t, c, now, -, -, -, rfl⟩
  · exact ⟨h.owned, h.ownerLe, h.stored, h.unstored⟩
  · exact h.enter k now admitted
  · exact h.exit t c now

theorem traced_start (pending attached : List Program) (filter : ArrayMap Bpf.FilterConfig 1)
    (clock : UInt64) (busy : Thread → Option SyscallKind) :
    Traced (.start pending attached filter clock busy) := by
  have hlookup : ∀ t, (System.start pending attached filter clock busy).maps.latencyStart.lookup t =
      none := fun t => BoundedMap.lookup_empty t
  refine ⟨fun t => ?_, fun t i hi => ?_, fun t c hc hs => ?_, fun t c hc hs => ⟨?_, ?_⟩⟩
  · rw [hlookup]
    rfl
  · cases hi
  · obtain ⟨k, -, rfl⟩ := Option.map_eq_some_iff.mp hc
    cases hs
  · exact (Option.some_ne_none _).symm
  · obtain ⟨k, -, rfl⟩ := Option.map_eq_some_iff.mp hc
    rw [hlookup]
    rfl

/-- The step is not the seen exit of a call that inherited its entry. -/
def InheritsNothing (s : System) (e : Event) : Prop :=
  ∀ t now c, e = .exit t now → s.inside t = some c → Program.exit c.syscall ∈ s.attached →
    c.inherited = false

theorem inheritsNothing_exit_iff {s : System} {t : Thread} {c : Call} {now : UInt64}
    (hc : s.inside t = some c) :
    InheritsNothing s (.exit t now) ↔
      (Program.exit c.syscall ∈ s.attached → c.inherited = false) := by
  constructor
  · exact fun hi => hi t now c rfl hc
  · intro hi u now' d he hd
    injection he with hut hnow
    subst hut
    rw [hc] at hd
    obtain rfl := Option.some.inj hd
    exact hi

theorem inheritsNothing_of_outside {s : System} {t : Thread} {now : UInt64}
    (hc : s.inside t = none) : InheritsNothing s (.exit t now) := by
  intro u now' d he hd
  injection he with hut hnow
  subst hut
  rw [hc] at hd
  cases hd

instance decidableInheritsNothing (s : System) (e : Event) : Decidable (InheritsNothing s e) :=
  match e with
  | .attach | .enter .. => isTrue fun _ _ _ he => Event.noConfusion he
  | .exit t _ =>
    match hc : s.inside t with
    | none => isTrue (inheritsNothing_of_outside hc)
    | some _ => decidable_of_iff _ (inheritsNothing_exit_iff hc).symm

/-- A sample is added without its pair exactly at the seen exit of a call that
inherited its entry. -/
theorem paired_step_iff {s s' : System} {e : Event} (h : Traced s) (hstep : step s e = some s') :
    (∀ x ∈ s'.samples, x.Paired) ↔ (∀ x ∈ s.samples, x.Paired) ∧ InheritsNothing s e := by
  rcases step_cases hstep with ⟨rfl, p, ps, -, rfl⟩ | ⟨t, k, now, admitted, rfl, -, -, rfl⟩ |
    ⟨t, c, now, rfl, -, hc, rfl⟩
  · exact (and_iff_left fun _ _ _ he => by cases he).symm
  · exact (and_iff_left fun _ _ _ he => by cases he).symm
  · -- only an exit that is seen can make a sample
    rw [inheritsNothing_exit_iff hc]
    rcases exit_cases s t c now with ⟨hexit, -, hs, -⟩ | ⟨-, hl, -, hs, -⟩ |
      ⟨hexit, start, hl, -, hs, -⟩
    · -- the exit is not seen, so there is no sample
      rw [hs]
      exact (and_iff_left fun hi => absurd hi hexit).symm
    · -- there is no entry, so nothing can have been inherited
      rw [hs]
      refine (and_iff_left fun _ => ?_).symm
      cases hstored : c.stored with
      | true => exact (h.stored t c hc hstored).2
      | false => rw [(h.unstored t c hc hstored).2, hl]; rfl
    · -- the new sample is the only one to be checked
      have hpaired : (⟨c.id, s.owner t, c.syscall, now - start⟩ : Sample).Paired ↔
          (Program.exit c.syscall ∈ s.attached → c.inherited = false) := by
        cases hstored : c.stored with
        | true => exact iff_of_true (h.stored t c hc hstored).1 fun _ => (h.stored t c hc hstored).2
        | false =>
          refine iff_of_false (h.unstored t c hc hstored).1 fun hi => ?_
          rw [(h.unstored t c hc hstored).2, hl] at hi
          cases hi hexit
      rw [hs, ← hpaired]
      simp only [List.forall_mem_append, List.forall_mem_singleton]

/-- In a run from start-up, all samples are paired exactly if no call that
inherited its entry is seen to exit. -/
theorem samples_paired_iff (kinds : List SyscallKind) (filter : ArrayMap Bpf.FilterConfig 1)
    (clock : UInt64) (busy : Thread → Option SyscallKind) (es : List Event) (s : System)
    (hrun : run step (.start (attach kinds) [] filter clock busy) es = some s) :
    (∀ x ∈ s.samples, x.Paired) ↔
      AllSteps step InheritsNothing (.start (attach kinds) [] filter clock busy) es := by
  rw [run_iff_allSteps (I := Traced) (P := fun s => ∀ x ∈ s.samples, x.Paired)
    (fun _ _ _ h hstep => ⟨h.step hstep, paired_step_iff h hstep⟩) hrun (traced_start _ _ _ _ _)]
  exact and_iff_right fun x hx => by cases hx

/-- A read between attaching its two programs leaves its entry behind, and the
next read is rejected by the filter. -/
def staleRead : List Event :=
  [.attach, .enter 1 .read 10 true, .exit 1 20, .attach, .enter 1 .read 30 false, .exit 1 40]

/-- The rejected read is counted, from the start of the read before it. -/
theorem unpaired_sample :
    ¬ ∀ (kinds : List SyscallKind) (filter : ArrayMap Bpf.FilterConfig 1) (clock : UInt64)
      (busy : Thread → Option SyscallKind) (es : List Event) (s : System),
      run step (.start (attach kinds) [] filter clock busy) es = some s →
      ∀ x ∈ s.samples, x.Paired := by
  intro h
  have hsamples :
    (run step (.start (attach (selected none)) [] Maps.fresh.filterMap 0 fun _ => none)
      staleRead).map (fun s => s.samples) = some [⟨2, some 1, .read, 30⟩] := by decide
  obtain ⟨s, hrun, hs⟩ := Option.map_eq_some_iff.mp hsamples
  have hpaired :=
    h _ _ _ _ _ s hrun ⟨2, some 1, .read, 30⟩ (by rw [hs]; exact List.mem_singleton_self _)
  cases hpaired

def seenReads : List Event :=
  [.attach, .attach, .enter 1 .read 10 true, .exit 1 20, .enter 1 .read 30 false, .exit 1 40]

theorem samples_paired_iff_seenReads :
    ∃ s, run step (.start (attach (selected none)) [] Maps.fresh.filterMap 0 fun _ => none)
        seenReads = some s ∧
      ((∀ x ∈ s.samples, x.Paired) ↔ AllSteps step InheritsNothing
        (.start (attach (selected none)) [] Maps.fresh.filterMap 0 fun _ => none) seenReads) := by
  obtain ⟨s, hs⟩ := Option.isSome_iff_exists.mp (show (run step
    (.start (attach (selected none)) [] Maps.fresh.filterMap 0 fun _ => none)
    seenReads).isSome = true by decide)
  exact ⟨s, hs, samples_paired_iff _ _ _ _ _ s hs⟩

end Latency

end Tracelet
