import Tracelet.Output

namespace Tracelet
open KernelMap TransitionRun

namespace EventLoop
open Bpf

/-- The record that an event puts into the ring buffer. -/
def Event.submits : Event → Option (List UInt8)
  | .fire record => record
  | _ => none

def printed (cmd : Command) (format : OutputFormat) (off : UInt64) (records : List (List UInt8)) :
    List Char :=
  (records.filterMap (cmd.line format off)).flatten

/-- The record that a step hands to the callback while `RUNNING` is set. -/
def handedOver (s : State) : Event → List (List UInt8)
  | .deliver => if s.running then s.maps.events.take 1 else []
  | _ => []

theorem printed_append (cmd : Command) (format : OutputFormat) (off : UInt64)
    (records records' : List (List UInt8)) :
    printed cmd format off (records ++ records') =
      printed cmd format off records ++ printed cmd format off records' := by
  unfold printed
  rw [List.filterMap_append, List.flatten_append]

/-- Only what is handed over is printed. -/
theorem written_eq (cmd : Command) (format : OutputFormat) (off : UInt64) (s : State) (e : Event) :
    written cmd format off s e = printed cmd format off (handedOver s e) := by
  cases e with
  | deliver =>
    unfold written handedOver
    cases s.maps.events with
    | nil => cases s.running <;> rfl
    | cons record rest =>
      cases hrun : s.running with
      | false => rfl
      | true => cases hline : cmd.line format off record <;> simp [printed, hline]
  | fire | signal | check | endPoll | warn | fail => rfl

/-- The ring buffer holds what was submitted and not yet consumed, and what was
consumed before the signal is counted. -/
structure Delivered (es : List Event) (s : State) : Prop where
  pending : s.maps.events = (submitted Event.submits es).drop s.consumed
  consumed_le : s.consumed ≤ (submitted Event.submits es).length
  counted_le : s.counted ≤ s.consumed
  running : s.running = true → s.counted = s.consumed

theorem of_drop_eq_cons {α : Type*} {l rest : List α} {n : ℕ} {a : α} (h : l.drop n = a :: rest) :
    n < l.length ∧ l.drop (n + 1) = rest ∧ l.take (n + 1) = l.take n ++ [a] := by
  have hlt : n < l.length := by
    by_contra hge
    rw [List.drop_eq_nil_of_le (Nat.le_of_not_lt hge)] at h
    cases h
  have hget : l[n]? = some a := by
    rw [← Nat.add_zero n, ← List.getElem?_drop, h]
    rfl
  refine ⟨hlt, ?_, ?_⟩
  · rw [← List.tail_drop, h, List.tail_cons]
  · rw [List.take_add_one, hget, Option.toList_some]

theorem step_other {cmd : Command} {count : Option UInt64} {s s' : State} {e : Event}
    (he : e ≠ .deliver) (h : step cmd count s e = some s') :
    s'.maps.events = s.maps.events ++ e.submits.toList ∧ s'.consumed = s.consumed ∧
      s'.counted = s.counted ∧ s'.lines = s.lines ∧ s'.printed = s.printed ∧
      (s'.running = true → s.running = true) := by
  cases e with
  | fire record =>
    obtain rfl := Option.some.inj h
    cases record with
    | none => exact ⟨(List.append_nil _).symm, rfl, rfl, rfl, rfl, id⟩
    | some record => exact ⟨rfl, rfl, rfl, rfl, rfl, id⟩
  | signal =>
    obtain rfl := Option.some.inj h
    exact ⟨(List.append_nil _).symm, rfl, rfl, rfl, rfl, Bool.noConfusion⟩
  | check expired =>
    obtain ⟨-, ⟨-, rfl⟩ | ⟨-, rfl⟩⟩ := check_cases h
    · exact ⟨(List.append_nil _).symm, rfl, rfl, rfl, rfl, id⟩
    · exact ⟨(List.append_nil _).symm, rfl, rfl, rfl, rfl, id⟩
  | deliver => exact absurd rfl he
  | endPoll =>
    obtain ⟨-, rfl⟩ := endPoll_cases h
    exact ⟨(List.append_nil _).symm, rfl, rfl, rfl, rfl, id⟩
  | warn =>
    obtain ⟨-, rfl⟩ := warn_cases h
    exact ⟨(List.append_nil _).symm, rfl, rfl, rfl, rfl, id⟩
  | fail =>
    obtain ⟨-, rfl⟩ := fail_cases h
    exact ⟨(List.append_nil _).symm, rfl, rfl, rfl, rfl, id⟩

theorem step_deliver {cmd : Command} {count : Option UInt64} {s s' : State}
    (h : step cmd count s .deliver = some s') :
    ∃ record rest, s.maps.events = record :: rest ∧ s'.maps.events = rest ∧
      s'.consumed = s.consumed + 1 ∧ s'.counted = s.counted + (if s.running then 1 else 0) ∧
      s'.lines = s.lines + (if s.running && cmd.decodes record then 1 else 0) ∧
      s'.running = s.running := by
  obtain ⟨record, rest, hevents, -, ⟨hrun, rfl⟩ | ⟨hrun, hdecodes, rfl⟩ | ⟨hrun, hdecodes, rfl⟩⟩ :=
    deliver_cases h
  · exact ⟨record, rest, hevents, rfl, rfl, by rw [hrun]; rfl, by rw [hrun]; rfl, rfl⟩
  · exact ⟨record, rest, hevents, rfl, rfl, by rw [hrun]; rfl, by rw [hrun, hdecodes]; rfl, rfl⟩
  · exact ⟨record, rest, hevents, rfl, rfl, by rw [hrun]; rfl, by rw [hrun, hdecodes]; rfl, rfl⟩

theorem delivered_start (filter : ArrayMap Bpf.FilterConfig 1) : Delivered [] (.start filter) :=
  ⟨rfl, le_rfl, le_rfl, fun _ => rfl⟩

/-- A step hands over the next counted record, if any. -/
theorem Delivered.step {cmd : Command} {count : Option UInt64} {es : List Event} {s s' : State}
    {e : Event} (h : Delivered es s) (hstep : EventLoop.step cmd count s e = some s') :
    Delivered (es ++ [e]) s' ∧ (submitted Event.submits (es ++ [e])).take s'.counted =
      (submitted Event.submits es).take s.counted ++ handedOver s e := by
  have hcounted := h.counted_le
  have hconsumed := h.consumed_le
  rw [submitted_concat]
  -- a delivery moves one record from the front of the buffer; other steps only append to it
  by_cases he : e = .deliver
  · subst he
    obtain ⟨record, rest, hevents, hrest, hcons, hcount, -, hrunning⟩ := step_deliver hstep
    have hpending := h.pending
    rw [hevents] at hpending
    obtain ⟨hlt, hdrop, htake⟩ := of_drop_eq_cons hpending.symm
    have hnone : (Event.deliver.submits.toList : List (List UInt8)) = [] := rfl
    rw [hnone, List.append_nil]
    refine ⟨⟨?_, ?_, ?_, ?_⟩, ?_⟩
    · rw [submitted_concat, hnone, List.append_nil, hrest, hcons, hdrop]
    · rw [submitted_concat, hnone, List.append_nil, hcons]
      exact hlt
    · rw [hcount, hcons]
      split <;> omega
    · intro hrun
      rw [hrunning] at hrun
      rw [hcount, hcons, hrun, h.running hrun]
      rfl
    · rw [hcount]
      cases hrun : s.running with
      | false => simp [handedOver, hrun]
      | true => simpa [handedOver, hrun, hevents, h.running hrun] using htake
  · obtain ⟨hevents, hcons, hcount, -, -, hrunning⟩ := step_other he hstep
    have hnone : handedOver s e = [] := by
      cases e with
      | deliver => exact absurd rfl he
      | fire | signal | check | endPoll | warn | fail => rfl
    refine ⟨⟨?_, ?_, ?_, ?_⟩, ?_⟩
    · rw [hevents, submitted_concat, hcons, List.drop_append_of_le_length hconsumed, h.pending]
    · rw [submitted_concat, hcons, List.length_append]
      omega
    · rw [hcount, hcons]
      exact hcounted
    · intro hrun
      rw [hcount, hcons]
      exact h.running (hrunning hrun)
    · rw [hnone, List.append_nil, hcount]
      exact List.take_append_of_le_length (hcounted.trans hconsumed)

/-- The loop prints a line for each decodable record among those delivered before
the signal: the first of the submitted ones, in their order. -/
theorem outputs_written {cmd : Command} {count : Option UInt64} (format : OutputFormat)
    (off : UInt64) {filter : ArrayMap Bpf.FilterConfig 1} {es : List Event} {s : State}
    (hrun : run (step cmd count) (.start filter) es = some s) :
    Delivered es s ∧ outputs (step cmd count) (written cmd format off) (.start filter) es =
        printed cmd format off ((submitted Event.submits es).take s.counted) ∧
      s.lines = ((submitted Event.submits es).take s.counted).countP cmd.decodes := by
  refine run_history (P := fun es s => Delivered es s ∧
      outputs (step cmd count) (written cmd format off) (.start filter) es =
        printed cmd format off ((submitted Event.submits es).take s.counted) ∧
      s.lines = ((submitted Event.submits es).take s.counted).countP cmd.decodes)
    (fun past s e s' hpast hs hstep => ?_) hrun ⟨delivered_start filter, rfl, rfl⟩
  obtain ⟨hd, hout, hlines⟩ := hs
  obtain ⟨hd', htake⟩ := hd.step hstep
  refine ⟨hd', ?_, ?_⟩
  · rw [outputs_concat hpast hstep, hout, written_eq, htake, printed_append]
  · rw [htake, List.countP_append, ← hlines]
    -- only a delivery counts a line, and only of a record that decodes
    by_cases he : e = .deliver
    · subst he
      obtain ⟨record, rest, hevents, -, -, -, hline, -⟩ := step_deliver hstep
      rw [hline, handedOver, hevents]
      cases s.running <;> simp [List.countP_singleton]
    · rw [(step_other he hstep).2.2.2.1]
      cases e with
      | deliver => exact absurd rfl he
      | fire | signal | check | endPoll | warn | fail => rfl

def Event.isTurn : Event → Bool
  | .check _ | .endPoll | .warn | .fail => true
  | .fire _ | .signal | .deliver => false

def Pc.turnsLeft : Pc → ℕ
  | .polling => 3
  | .warn => 2
  | .check => 1
  | .done | .failed => 0

/-- Once `RUNNING` is cleared, a step prints and counts nothing. -/
theorem stopped_step {cmd : Command} {count : Option UInt64} {s s' : State} {e : Event}
    (hstopped : s.running = false) (h : step cmd count s e = some s') :
    (s'.running = false ∧ s'.printed = s.printed ∧ s'.decodeRejects = s.decodeRejects) ∧
      handedOver s e = [] ∧ s'.pc.turnsLeft + (if e.isTurn then 1 else 0) ≤ s.pc.turnsLeft := by
  cases e with
  | fire record =>
    obtain rfl := Option.some.inj h
    exact ⟨⟨hstopped, rfl, rfl⟩, rfl, le_rfl⟩
  | signal =>
    obtain rfl := Option.some.inj h
    exact ⟨⟨rfl, rfl, rfl⟩, rfl, le_rfl⟩
  -- the callback returns at once, so the record is taken but not printed
  | deliver =>
    have hnone : handedOver s .deliver = [] := by simp [handedOver, hstopped]
    obtain ⟨_, _, -, -, ⟨-, rfl⟩ | ⟨hrun, -⟩ | ⟨hrun, -⟩⟩ := deliver_cases h
    · exact ⟨⟨hstopped, rfl, rfl⟩, hnone, le_rfl⟩
    · simp [hstopped] at hrun
    · simp [hstopped] at hrun
  | check expired =>
    obtain ⟨hpc, ⟨-, rfl⟩ | ⟨hgo, -⟩⟩ := check_cases h
    · exact ⟨⟨hstopped, rfl, rfl⟩, rfl, by rw [hpc]; rfl⟩
    · -- `should_stop` holds as soon as the signal has come
      simp [shouldStop, hstopped] at hgo
  | endPoll =>
    obtain ⟨hpc, rfl⟩ := endPoll_cases h
    exact ⟨⟨hstopped, rfl, rfl⟩, rfl, by rw [hpc]; rfl⟩
  | warn =>
    obtain ⟨hpc, rfl⟩ := warn_cases h
    exact ⟨⟨hstopped, rfl, rfl⟩, rfl, by rw [hpc]; rfl⟩
  | fail =>
    obtain ⟨hpc, rfl⟩ := fail_cases h
    refine ⟨⟨hstopped, rfl, rfl⟩, rfl, ?_⟩
    change 0 + 1 ≤ s.pc.turnsLeft
    rcases hpc with hpc | hpc
    · rw [hpc]
      decide
    · rw [hpc]
      decide

theorem turn_enabled (cmd : Command) (count : Option UInt64) (s : State) :
    s.pc = .done ∨ s.pc = .failed ∨ ∃ e, e.isTurn = true ∧ (step cmd count s e).isSome := by
  cases hpc : s.pc with
  | done => exact .inl rfl
  | failed => exact .inr (.inl rfl)
  | check =>
    refine .inr (.inr ⟨.check true, rfl, ?_⟩)
    simp only [step, hpc, ne_eq, not_true_eq_false, if_false]
    split <;> rfl
  | polling => exact .inr (.inr ⟨.endPoll, rfl, by simp [step, hpc]⟩)
  | warn => exact .inr (.inr ⟨.warn, rfl, by simp [step, hpc]⟩)

/-- After a signal nothing more is printed or counted, and the loop ends after
at most three more of its own steps, whatever fires and is delivered meanwhile. -/
theorem quiet_after_signal (cmd : Command) (count : Option UInt64) (format : OutputFormat)
    (off : UInt64) (filter : ArrayMap Bpf.FilterConfig 1) (es es' : List Event) (s t : State)
    (hbefore : run (step cmd count) (.start filter) es = some t)
    (hafter : run (step cmd count) t (.signal :: es') = some s) :
    stdout cmd count format off (.start filter) (es ++ .signal :: es') =
        stdout cmd count format off (.start filter) es ∧
      s.printed = t.printed ∧ s.decodeRejects = t.decodeRejects ∧
      s.pc.turnsLeft + es'.countP Event.isTurn ≤ 3 ∧
      (s.pc = .done ∨ s.pc = .failed ∨ ∃ e, e.isTurn = true ∧ (step cmd count s e).isSome) := by
  obtain ⟨u, hu, hrest⟩ := run_cons_eq_some.mp hafter
  obtain rfl := Option.some.inj hu
  -- the steps that the turn has left are used up, and no new turn begins
  have hturns : s.pc.turnsLeft + es'.countP Event.isTurn ≤ t.pc.turnsLeft :=
    countP_add_le (I := fun s => s.running = false) (k := Event.isTurn)
      (f := fun s => s.pc.turnsLeft)
      (fun s e s' hs h => ⟨(stopped_step hs h).1.1, (stopped_step hs h).2.2⟩) hrest rfl
  have hcounts := run_invariant (P := fun u => u.running = false ∧ u.printed = t.printed ∧
      u.decodeRejects = t.decodeRejects)
    (fun s e s' hs h => ⟨(stopped_step hs.1 h).1.1, (stopped_step hs.1 h).1.2.1.trans hs.2.1,
      (stopped_step hs.1 h).1.2.2.trans hs.2.2⟩) hrest ⟨rfl, rfl, rfl⟩
  have hquiet : outputs (step cmd count) (written cmd format off) t (.signal :: es') = [] := by
    have hlater : outputs (step cmd count) (written cmd format off)
      { t with running := false } es' =
        [] := outputs_eq_nil (I := fun s => s.running = false)
      (fun s e s' hs h => ⟨(stopped_step hs h).1.1, by
        rw [written_eq, (stopped_step hs h).2.1]
        rfl⟩) rfl es'
    rw [outputs, hu, Option.elim_some, hlater]
    rfl
  have hleft : t.pc.turnsLeft ≤ 3 := by
    cases t.pc <;> decide
  refine ⟨?_, hcounts.2.1, hcounts.2.2, hturns.trans hleft, turn_enabled cmd count s⟩
  unfold stdout
  rw [outputs_append hbefore, hquiet, List.append_nil]

def signalled : List Event := [.deliver, .endPoll, .warn, .check false]

set_option maxRecDepth 4000 in
theorem quiet_after_signal_two_records :
    ∃ s t, run (step .exec none) (.start Maps.fresh.filterMap)
        [.fire (some Events.zeroExec), .fire (some Events.zeroExec), .check false, .deliver] =
          some t ∧
      run (step .exec none) t (.signal :: signalled) = some s ∧ s.printed = t.printed := by
  obtain ⟨t, ht⟩ := Option.isSome_iff_exists.mp (show (run (step .exec none)
    (.start Maps.fresh.filterMap) [.fire (some Events.zeroExec), .fire (some Events.zeroExec),
      .check false, .deliver]).isSome = true by decide)
  obtain ⟨s, hs⟩ := Option.isSome_iff_exists.mp (show ((run (step .exec none)
    (.start Maps.fresh.filterMap) [.fire (some Events.zeroExec), .fire (some Events.zeroExec),
      .check false, .deliver]).bind fun t =>
        run (step .exec none) t (.signal :: signalled)).isSome = true
    by decide)
  rw [ht, Option.bind_some] at hs
  exact ⟨s, t, ht, hs, (quiet_after_signal .exec none .text 0 _ _ signalled s t ht hs).2.1⟩

end EventLoop

end Tracelet
