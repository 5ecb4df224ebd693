import Mathlib

namespace RustParse

/-- `char::is_whitespace`: the characters with the Unicode property `White_Space`. -/
def isWhitespace (c : Char) : Bool :=
  (0x09 ≤ c.toNat && c.toNat ≤ 0x0D) || c.toNat == 0x20 || c.toNat == 0x85 || c.toNat == 0xA0 ||
    c.toNat == 0x1680 || (0x2000 ≤ c.toNat && c.toNat ≤ 0x200A) || c.toNat == 0x2028 ||
    c.toNat == 0x2029 || c.toNat == 0x202F || c.toNat == 0x205F || c.toNat == 0x3000

def trim (cs : List Char) : List Char := (cs.dropWhile isWhitespace).rdropWhile isWhitespace

def stripSuffix (cs suffix : List Char) : Option (List Char) :=
  if suffix <:+ cs then some (cs.take (cs.length - suffix.length)) else none

theorem stripSuffix_eq_some_iff {cs suffix n : List Char} :
    stripSuffix cs suffix = some n ↔ cs = n ++ suffix := by
  unfold stripSuffix
  constructor
  · intro h
    split_ifs at h with hs
    obtain ⟨front, rfl⟩ := hs
    simp at h
    rw [h]
  · rintro rfl
    rw [if_pos (List.suffix_append n suffix)]
    simp

theorem stripSuffix_eq_none {c d : Char} (h : c ≠ d) (cs suffix : List Char) :
    stripSuffix (cs ++ [c]) (suffix ++ [d]) = none := by
  apply Option.eq_none_iff_forall_ne_some.mpr
  intro n hn
  have happend := stripSuffix_eq_some_iff.mp hn
  rw [← List.append_assoc] at happend
  exact h (List.singleton_inj.mp (List.append_inj' happend rfl).2)

inductive ParseIntError where
  | empty | invalidDigit | posOverflow
  deriving DecidableEq

def ParseIntError.message : ParseIntError → String
  | empty => "cannot parse integer from empty string"
  | invalidDigit => "invalid digit found in string"
  | posOverflow => "number too large to fit in target type"

/-- The digits of a literal, read from the left. A bad digit is reported before
an overflow at the same place. -/
def digitsBelow (bound acc : ℕ) : List Char → Except ParseIntError ℕ
  | [] => .ok acc
  | c :: cs =>
    if !c.isDigit then .error .invalidDigit
    else if 10 * acc + (c.toNat - '0'.toNat) < bound then
      digitsBelow bound (10 * acc + (c.toNat - '0'.toNat)) cs
    else .error .posOverflow

/-- A sign may only be a plus, and needs digits behind it. -/
def parseBelow (bound : ℕ) : List Char → Except ParseIntError ℕ
  | [] => .error .empty
  | '+' :: cs => if cs.isEmpty then .error .invalidDigit else digitsBelow bound 0 cs
  | cs => digitsBelow bound 0 cs

def parseU32 (cs : List Char) : Except ParseIntError UInt32 :=
  (parseBelow (2 ^ 32) cs).map UInt32.ofNat

def parseU64 (cs : List Char) : Except ParseIntError UInt64 :=
  (parseBelow (2 ^ 64) cs).map UInt64.ofNat

/-- The text `cs` is a literal below `bound`, and `n` is its value. -/
def IsLiteralBelow (bound : ℕ) (cs : List Char) (n : ℕ) : Prop :=
  ∃ ds, (cs = ds ∨ cs = '+' :: ds) ∧ ds ≠ [] ∧ (∀ c ∈ ds, c.isDigit = true) ∧
    Nat.ofDigitChars 10 ds 0 = n ∧ n < bound

def IsU64Literal (cs : List Char) (v : UInt64) : Prop := IsLiteralBelow (2 ^ 64) cs v.toNat

theorem le_ofDigitChars (cs : List Char) (init : ℕ) : init ≤ Nat.ofDigitChars 10 cs init := by
  induction cs generalizing init with
  | nil => exact le_rfl
  | cons c cs ih =>
    rw [Nat.ofDigitChars_cons]
    have h := ih (10 * init + (c.toNat - '0'.toNat))
    omega

theorem digitsBelow_eq_ok_iff {bound acc n : ℕ} {cs : List Char} (hacc : acc < bound) :
    digitsBelow bound acc cs = .ok n ↔
      (∀ c ∈ cs, c.isDigit = true) ∧ Nat.ofDigitChars 10 cs acc = n ∧ n < bound := by
  induction cs generalizing acc with
  | nil =>
    simp only [digitsBelow, Except.ok.injEq, List.not_mem_nil, false_implies, implies_true,
      Nat.ofDigitChars_nil, true_and]
    exact ⟨fun h => ⟨h, h ▸ hacc⟩, And.left⟩
  | cons c cs ih =>
    rw [digitsBelow, Nat.ofDigitChars_cons, List.forall_mem_cons]
    cases hc : c.isDigit with
    | false => simp
    | true =>
      by_cases hlt : 10 * acc + (c.toNat - '0'.toNat) < bound
      · simp only [Bool.not_true, Bool.false_eq_true, if_false, if_pos hlt, ih hlt, true_and]
      · -- the value only grows from here on
        have hle := le_ofDigitChars cs (10 * acc + (c.toNat - '0'.toNat))
        simp only [Bool.not_true, Bool.false_eq_true, if_false, if_neg hlt, reduceCtorEq, true_and,
          false_iff, not_and]
        omega

theorem parseBelow_eq_ok_iff {bound n : ℕ} {cs : List Char} (hbound : 0 < bound) :
    parseBelow bound cs = .ok n ↔ IsLiteralBelow bound cs n := by
  -- a sign is no digit, so it is read as a sign or not at all
  have hplus : ¬ '+'.isDigit = true := by decide
  unfold parseBelow IsLiteralBelow
  split
  · simp
  · rename_i cs
    constructor
    · intro h
      split_ifs at h with hempty
      exact ⟨cs, .inr rfl, by simpa using hempty, (digitsBelow_eq_ok_iff hbound).mp h⟩
    · rintro ⟨ds, rfl | h, hne, hread⟩
      · exact absurd (hread.1 '+' List.mem_cons_self) hplus
      · obtain rfl := (List.cons.inj h).2
        rw [if_neg (by simpa using hne)]
        exact (digitsBelow_eq_ok_iff hbound).mpr hread
  · rename_i hne hsign
    rw [digitsBelow_eq_ok_iff hbound]
    constructor
    · exact fun hread => ⟨cs, .inl rfl, hne, hread⟩
    · rintro ⟨ds, rfl | h, -, hread⟩
      · exact hread
      · exact absurd h (hsign ds)

theorem map_parseBelow_eq_ok_iff {α : Type*} {bound : ℕ} {ofNat : ℕ → α} {toNat : α → ℕ}
    (hto : ∀ n < bound, toNat (ofNat n) = n) (hof : ∀ v, ofNat (toNat v) = v)
    (hlt : ∀ v, toNat v < bound) {cs : List Char} {v : α} :
    (parseBelow bound cs).map ofNat = .ok v ↔ IsLiteralBelow bound cs (toNat v) := by
  have hiff {n : ℕ} : parseBelow bound cs = .ok n ↔ IsLiteralBelow bound cs n :=
    parseBelow_eq_ok_iff (Nat.zero_lt_of_lt (hlt v))
  rw [← hiff]
  cases h : parseBelow bound cs with
  | error e => simp [Except.map]
  | ok n =>
    obtain ⟨-, -, -, -, -, hn⟩ := hiff.mp h
    simp only [Except.map, Except.ok.injEq]
    exact ⟨fun hv => by rw [← hv, hto n hn], fun hv => by rw [hv, hof]⟩

theorem parseU32_eq_ok_iff {cs : List Char} {v : UInt32} :
    parseU32 cs = .ok v ↔ IsLiteralBelow (2 ^ 32) cs v.toNat :=
  map_parseBelow_eq_ok_iff (fun _ => UInt32.toNat_ofNat_of_lt') (fun _ => UInt32.ofNat_toNat)
    UInt32.toNat_lt

theorem parseU64_eq_ok_iff {cs : List Char} {v : UInt64} :
    parseU64 cs = .ok v ↔ IsU64Literal cs v :=
  map_parseBelow_eq_ok_iff (fun _ => UInt64.toNat_ofNat_of_lt') (fun _ => UInt64.ofNat_toNat)
    UInt64.toNat_lt

theorem IsU64Literal.mem {cs : List Char} {v : UInt64} (h : IsU64Literal cs v) {c : Char}
    (hc : c ∈ cs) : c = '+' ∨ c.isDigit = true := by
  obtain ⟨ds, rfl | rfl, -, hdigits, -⟩ := h
  · exact .inr (hdigits c hc)
  · rcases List.mem_cons.mp hc with rfl | hc
    · exact .inl rfl
    · exact .inr (hdigits c hc)

theorem IsU64Literal.unique {cs : List Char} {v w : UInt64} (hv : IsU64Literal cs v)
    (hw : IsU64Literal cs w) : v = w :=
  Except.ok.inj ((parseU64_eq_ok_iff.mpr hv).symm.trans (parseU64_eq_ok_iff.mpr hw))

end RustParse
