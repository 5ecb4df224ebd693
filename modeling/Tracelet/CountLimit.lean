import Tracelet.EventLoop

namespace Tracelet
open TransitionRun

namespace EventLoop
open Bpf

/-- Of the records that a poll hands over while `RUNNING` is set, this one is
not decodable, or the first that is, or one the limit had room for when the
poll began. -/
def BatchFits (cmd : Command) (limit : UInt64) (s : State) (e : Event) : Prop :=
  ∀ record rest, e = .deliver → s.maps.events = record :: rest → s.running = true →
    cmd.decodes record = true → 0 < s.handed → s.handed + 1 ≤ limit.toNat - s.pollStart

/-- The printed lines, split at the start of the poll in progress. -/
structure Polled (limit : UInt64) (s : State) : Prop where
  printed : s.printed = UInt64.ofNat s.lines
  lines : s.pc = .polling → s.lines = s.pollStart + s.handed
  room : s.pc = .polling → UInt64.ofNat s.pollStart < limit

theorem Polled.of_pc {limit : UInt64} {s : State} (h : s.printed = UInt64.ofNat s.lines)
    (hpc : s.pc ≠ .polling) : Polled limit s :=
  ⟨h, fun hp => absurd hp hpc, fun hp => absurd hp hpc⟩

theorem and_batchFits_iff {cmd : Command} {limit : UInt64} {s : State} {e : Event}
    (he : e ≠ .deliver) {P : Prop} : P ↔ P ∧ BatchFits cmd limit s e :=
  (and_iff_left fun _ _ hd => absurd hd he).symm

theorem shouldStop_false {running : Bool} {printed limit : UInt64} {expired : Bool}
    (h : shouldStop running printed (some limit) expired = false) : printed < limit := by
  cases running with
  | false => simp [shouldStop] at h
  | true =>
    by_contra hge
    simp [shouldStop, UInt64.not_lt.mp hge] at h

/-- A delivery that prints needs room, and every other one keeps the count. -/
theorem polled_deliver {cmd : Command} {limit : UInt64} {s s' : State} (h : Polled limit s)
    (hstep : step cmd (some limit) s .deliver = some s') :
    Polled limit s' ∧
      (s'.lines ≤ limit.toNat ↔ s.lines ≤ limit.toNat ∧ BatchFits cmd limit s .deliver) := by
  obtain ⟨record, rest, hevents, hpc, hcases⟩ := deliver_cases hstep
  -- dropped after the signal, printed, or rejected
  rcases hcases with ⟨hrun, rfl⟩ | ⟨hrun, hdecodes, rfl⟩ | ⟨-, hdecodes, rfl⟩
  · refine ⟨⟨h.printed, h.lines, h.room⟩, (and_iff_left fun _ _ _ _ hr => ?_).symm⟩
    rw [hrun] at hr
    cases hr
  · have hlines := h.lines hpc
    have hroom := UInt64.lt_iff_toNat_lt.mp (h.room hpc)
    have hlimit := limit.toNat_lt
    refine ⟨⟨?_, fun _ => ?_, h.room⟩, ?_⟩
    · simp only [h.printed, UInt64.ofNat_add]
      rfl
    · change s.lines + 1 = s.pollStart + (s.handed + 1)
      omega
    · have hcond : BatchFits cmd limit s .deliver ↔
          (0 < s.handed → s.handed + 1 ≤ limit.toNat - s.pollStart) := by
        constructor
        · exact fun hb => hb record rest rfl hevents hrun hdecodes
        · exact fun hb _ _ _ _ _ _ => hb
      rw [hcond]
      change s.lines + 1 ≤ limit.toNat ↔ _
      rw [UInt64.toNat_ofNat'] at hroom
      -- the first decodable record of a poll always fits
      constructor
      · intro hle
        omega
      · rintro ⟨hle, hb⟩
        rcases Nat.eq_zero_or_pos s.handed with h0 | hpos
        · omega
        · have := hb hpos
          omega
  · refine ⟨⟨h.printed, h.lines, h.room⟩, (and_iff_left fun r _ _ he _ hd => ?_).symm⟩
    rw [hevents] at he
    obtain rfl := (List.cons.inj he).1
    rw [hdecodes] at hd
    cases hd

theorem polled_step {cmd : Command} {limit : UInt64} {s s' : State} {e : Event}
    (h : Polled limit s) (hstep : step cmd (some limit) s e = some s') :
    Polled limit s' ∧
      (s'.lines ≤ limit.toNat ↔ s.lines ≤ limit.toNat ∧ BatchFits cmd limit s e) := by
  cases e with
  -- only a delivery prints, so every other step meets the condition
  | fire record =>
    obtain rfl := Option.some.inj hstep
    exact ⟨⟨h.printed, h.lines, h.room⟩, and_batchFits_iff Event.noConfusion⟩
  | signal =>
    obtain rfl := Option.some.inj hstep
    exact ⟨⟨h.printed, h.lines, h.room⟩, and_batchFits_iff Event.noConfusion⟩
  | check expired =>
    obtain ⟨-, ⟨-, rfl⟩ | ⟨hgo, rfl⟩⟩ := check_cases hstep
    · exact ⟨.of_pc h.printed Pc.noConfusion, and_batchFits_iff Event.noConfusion⟩
    · exact ⟨⟨h.printed, fun _ => rfl, fun _ => h.printed ▸ shouldStop_false hgo⟩,
        and_batchFits_iff Event.noConfusion⟩
  | endPoll =>
    obtain ⟨-, rfl⟩ := endPoll_cases hstep
    exact ⟨.of_pc h.printed Pc.noConfusion, and_batchFits_iff Event.noConfusion⟩
  | warn =>
    obtain ⟨-, rfl⟩ := warn_cases hstep
    exact ⟨.of_pc h.printed Pc.noConfusion, and_batchFits_iff Event.noConfusion⟩
  | fail =>
    obtain ⟨-, rfl⟩ := fail_cases hstep
    exact ⟨.of_pc h.printed Pc.noConfusion, and_batchFits_iff Event.noConfusion⟩
  | deliver => exact polled_deliver h hstep

/-- With `--count limit`, at most `limit` lines are printed in a run exactly if
no poll hands over more decodable records than the limit has room for. -/
theorem count_limit_iff (cmd : Command) (limit : UInt64)
    (filter : KernelMap.ArrayMap Bpf.FilterConfig 1) (es : List Event) (s : State)
    (hrun : run (step cmd (some limit)) (.start filter) es = some s) :
    s.lines ≤ limit.toNat ↔
      AllSteps (step cmd (some limit)) (BatchFits cmd limit) (.start filter) es := by
  have hstart : Polled limit (.start filter) := .of_pc rfl Pc.noConfusion
  rw [run_iff_allSteps (I := Polled limit) (P := fun s => s.lines ≤ limit.toNat)
    (fun _ _ _ h hstep => polled_step h hstep) hrun hstart]
  exact and_iff_right (Nat.zero_le _)

def onePerPoll : List Event :=
  [.fire (some Events.zeroExec), .check false, .deliver, .endPoll, .warn,
    .fire (some Events.zeroExec),
    .check false, .deliver]

set_option maxRecDepth 4000 in
theorem count_limit_iff_onePerPoll :
    ∃ s, run (step .exec (some 2)) (.start Maps.fresh.filterMap) onePerPoll = some s ∧
      (s.lines ≤ (2 : UInt64).toNat ↔ AllSteps (step .exec (some 2)) (BatchFits .exec 2)
        (.start Maps.fresh.filterMap) onePerPoll) := by
  obtain ⟨s, hs⟩ := Option.isSome_iff_exists.mp (show (run (step .exec (some 2))
    (.start Maps.fresh.filterMap) onePerPoll).isSome = true by decide)
  exact ⟨s, hs, count_limit_iff .exec 2 _ _ s hs⟩

set_option maxRecDepth 4000 in
theorem run_overshoot :
    (run (step .exec (some 1)) (.start Maps.fresh.filterMap)
      [.fire (some Events.zeroExec), .fire (some Events.zeroExec), .check false, .deliver,
        .deliver]).map
        (fun s => s.lines) = some 2 := by decide

/-- With `--count 1`, a poll that is handed two records prints both. -/
theorem count_limit_exceeded :
    ¬ ∀ (cmd : Command) (limit : UInt64) (filter : KernelMap.ArrayMap Bpf.FilterConfig 1)
      (es : List Event) (s : State),
      run (step cmd (some limit)) (.start filter) es = some s → s.lines ≤ limit.toNat := by
  intro h
  obtain ⟨s, hs, hlines⟩ := Option.map_eq_some_iff.mp run_overshoot
  have hle := h _ _ _ _ s hs
  rw [hlines] at hle
  exact absurd hle (by decide)

end EventLoop

end Tracelet
