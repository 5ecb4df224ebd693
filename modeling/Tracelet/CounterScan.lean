import Mathlib.Data.List.Sublists
import Mathlib.Tactic.TypeStar

namespace CounterScan

variable {ε κ : Type*} (key : ε → κ)

/-- Every event counts in the cell of its key, and a reader takes the cells one after
another, each when `mark c` events have been counted. These are the events that were
counted before the reader took their cell. -/
def seen : (κ → ℕ) → List ε → List ε
  | _, [] => []
  | mark, e :: es =>
    if 0 < mark (key e) then e :: seen (fun c => mark c - 1) es else seen (fun c => mark c - 1) es

theorem countP_seen [DecidableEq κ] (mark : κ → ℕ) (es : List ε) (c : κ) :
    (seen key mark es).countP (fun e => key e = c) =
      (es.take (mark c)).countP fun e => key e = c := by
  induction es generalizing mark with
  | nil => rw [seen, List.take_nil]
  | cons e es ih =>
    -- marks count from the front, so for the events that are left each is one less
    have hrest := ih fun c => mark c - 1
    by_cases hc : key e = c
    · subst hc
      cases hmark : mark (key e) with
      | zero =>
        rw [hmark, List.take_zero] at hrest
        rw [seen, hmark, if_neg (Nat.lt_irrefl 0), List.take_zero]
        exact hrest
      | succ n =>
        rw [hmark, Nat.add_sub_cancel] at hrest
        rw [seen, hmark, if_pos (Nat.succ_pos n), List.take_succ_cons, List.countP_cons,
          List.countP_cons, hrest]
    · have hskip : (seen key mark (e :: es)).countP (fun e => key e = c) =
          (seen key (fun c => mark c - 1) es).countP fun e => key e = c := by
        rw [seen]
        split_ifs
        · simp [hc]
        · rfl
      rw [hskip, hrest]
      cases mark c with
      | zero => rfl
      | succ n => simp [hc]

theorem seen_sublist (mark : κ → ℕ) (es : List ε) : (seen key mark es).Sublist es := by
  induction es generalizing mark with
  | nil => exact List.Sublist.refl []
  | cons e es ih =>
    rw [seen]
    split_ifs
    · exact (ih _).cons_cons e
    · exact (ih _).cons e

theorem take_sublist_seen {n : ℕ} {mark : κ → ℕ} (h : ∀ c, n ≤ mark c) (es : List ε) :
    (es.take n).Sublist (seen key mark es) := by
  induction es generalizing n mark with
  | nil => rw [List.take_nil, seen]
  | cons e es ih =>
    cases n with
    | zero => exact List.nil_sublist _
    | succ n =>
      have hrest := ih (n := n) fun c => Nat.le_sub_one_of_lt (h c)
      rw [seen, if_pos ((Nat.succ_pos n).trans_le (h (key e))), List.take_succ_cons]
      exact hrest.cons_cons e

end CounterScan
