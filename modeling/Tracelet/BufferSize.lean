import Tracelet.RustParse

namespace Tracelet
open RustParse

def parseBufferMb (s : String) : Except String UInt32 :=
  match parseU32 s.toList with
  | .error e => .error e.message
  | .ok mb =>
    if mb = 0 ∨ ¬ mb.toNat.isPowerOfTwo then
      .error "must be a power of 2 (1, 2, 4, 8, 16, ...)"
    else .ok mb

/-- A product of two `u32`. A build with overflow checks panics where one
without wraps; `none` is the panic. -/
def mulU32 (checks : Bool) (a b : UInt32) : Option UInt32 :=
  if a.toNat * b.toNat < 2 ^ 32 then some (a * b)
  else if checks then none
  else some (a * b)

/-- `max_entries` of the `events` map as the object file has it. -/
def eventsMaxEntries : UInt32 := (1 : UInt32) <<< 24

/-- `if buffer_mb != 16 { .. set_max_entries(buffer_mb * 1024 * 1024) .. }`. -/
def resize (checks : Bool) (bufferMb maxEntries : UInt32) : Option UInt32 :=
  if bufferMb ≠ 16 then (mulU32 checks bufferMb 1024).bind fun kb => mulU32 checks kb 1024
  else some maxEntries

inductive Loader where
  | exec | fileOpen | tcp | latency | collect
  deriving DecidableEq

/-- `max_entries` of `events` at `load`, for an object opened by this function. -/
def Loader.maxEntries (checks : Bool) (bufferMb : UInt32) : Loader → Option UInt32
  | exec => resize checks bufferMb eventsMaxEntries
  | fileOpen => resize checks bufferMb eventsMaxEntries
  | tcp => resize checks bufferMb eventsMaxEntries
  | latency => resize checks bufferMb eventsMaxEntries
  | collect => resize checks bufferMb eventsMaxEntries

/-- The function loads a ring buffer of exactly this many MiB, and its size is
a power of two. -/
def Loader.Usable (checks : Bool) (mb : UInt32) (l : Loader) : Prop :=
  ∃ bytes, l.maxEntries checks mb = some bytes ∧
    bytes.toNat = mb.toNat * 2 ^ 20 ∧ bytes.toNat.isPowerOfTwo

theorem parseBufferMb_eq_ok_iff {s : String} {mb : UInt32} :
    parseBufferMb s = .ok mb ↔
      IsLiteralBelow (2 ^ 32) s.toList mb.toNat ∧ mb.toNat.isPowerOfTwo := by
  rw [← parseU32_eq_ok_iff, parseBufferMb]
  cases h : parseU32 s.toList with
  | error e => simp
  | ok v =>
    have hzero : v = 0 → ¬ v.toNat.isPowerOfTwo := by
      rintro rfl
      exact Nat.not_isPowerOfTwo_zero
    simp only [Except.ok.injEq]
    split_ifs with hv
    · simp only [false_iff, not_and]
      rintro rfl
      exact hv.elim hzero id
    · rw [not_or, not_not] at hv
      simp only [Except.ok.injEq]
      exact ⟨fun heq => ⟨heq, heq ▸ hv.2⟩, And.left⟩

theorem parseBufferMb_toString {mb : UInt32} (h : mb.toNat.isPowerOfTwo) :
    parseBufferMb (toString mb.toNat) = .ok mb := by
  apply parseBufferMb_eq_ok_iff.mpr
  refine ⟨⟨Nat.toDigits 10 mb.toNat, .inl ?_, Nat.toDigits_ne_nil, fun c hc => ?_,
    Nat.ofDigitChars_ten_toDigits, mb.toNat_lt⟩, h⟩
  · rw [Nat.toString_eq_ofList_toDigits, String.toList_ofList]
  · exact Nat.isDigit_of_mem_toDigits (by decide) (by decide) hc

-- the default of the option
example : parseBufferMb "16" = .ok 16 := by decide

theorem Loader.maxEntries_eq (checks : Bool) (mb : UInt32) (l : Loader) :
    l.maxEntries checks mb = resize checks mb eventsMaxEntries := by
  cases l <;> rfl

theorem mulU32_of_lt (checks : Bool) {a : UInt32} (h : a.toNat * 1024 < 2 ^ 32) :
    mulU32 checks a 1024 = some (a * 1024) ∧ (a * 1024).toNat = a.toNat * 1024 :=
  ⟨if_pos h, (UInt32.toNat_mul a 1024).trans (Nat.mod_eq_of_lt h)⟩

theorem mulU32_of_le {a : UInt32} (h : 2 ^ 32 ≤ a.toNat * 1024) : mulU32 true a 1024 = none :=
  if_neg (not_lt.mpr h)

theorem mulU32_unchecked (a b : UInt32) : mulU32 false a b = some (a * b) := ite_self _

theorem resize_of_lt (checks : Bool) {mb : UInt32} (h : mb.toNat < 4096) :
    ∃ bytes, resize checks mb eventsMaxEntries = some bytes ∧ bytes.toNat = mb.toNat * 2 ^ 20 := by
  unfold resize
  split_ifs with hmb
  · obtain ⟨hkb, hkb'⟩ := mulU32_of_lt checks (a := mb) (by omega)
    obtain ⟨hbytes, hbytes'⟩ := mulU32_of_lt checks (a := mb * 1024) (by omega)
    refine ⟨mb * 1024 * 1024, by rw [hkb, Option.bind_some, hbytes], ?_⟩
    rw [hbytes', hkb', Nat.mul_assoc]
    congr 1
  · rw [not_not] at hmb
    exact ⟨eventsMaxEntries, rfl, by rw [hmb]; rfl⟩

theorem resize_of_le {mb : UInt32} (h : 4096 ≤ mb.toNat) (hpow : mb.toNat.isPowerOfTwo)
    (maxEntries : UInt32) :
    resize true mb maxEntries = none ∧ resize false mb maxEntries = some 0 := by
  have hmb : mb ≠ 16 := by
    rintro rfl
    exact absurd h (by decide)
  -- a power of two from 4096 on is a multiple of 2 ^ 12, and 2 ^ 12 * 2 ^ 20 is 0 in `u32`
  have hwrap : mb * 1024 * 1024 = 0 := by
    obtain ⟨k, hk⟩ := hpow
    have hk12 : 12 ≤ k := (Nat.pow_le_pow_iff_right (a := 2) (by decide)).mp (hk ▸ h)
    obtain ⟨j, rfl⟩ := Nat.exists_eq_add_of_le hk12
    have hmul : mb * 1024 * 1024 = mb * 1048576 := mul_assoc mb 1024 1024
    apply UInt32.toNat_inj.mp
    rw [hmul, UInt32.toNat_mul, hk, pow_add]
    change 2 ^ 12 * 2 ^ j * 2 ^ 20 % 2 ^ 32 = 0
    omega
  unfold resize
  rw [if_pos hmb, if_pos hmb]
  constructor
  · -- one of the two products is the first that is too large
    by_cases hkb : mb.toNat * 1024 < 2 ^ 32
    · obtain ⟨hsome, hkb'⟩ := mulU32_of_lt true hkb
      rw [hsome, Option.bind_some]
      apply mulU32_of_le
      rw [hkb']
      omega
    · rw [mulU32_of_le (not_lt.mp hkb), Option.bind_none]
  · rw [mulU32_unchecked, Option.bind_some, mulU32_unchecked, hwrap]

theorem Loader.usable_of_lt (checks : Bool) {mb : UInt32} (h : mb.toNat < 4096)
    (hpow : mb.toNat.isPowerOfTwo) (l : Loader) : l.Usable checks mb := by
  obtain ⟨bytes, hsome, hbytes⟩ := resize_of_lt checks h
  obtain ⟨k, hk⟩ := hpow
  refine ⟨bytes, by rw [l.maxEntries_eq, hsome], hbytes, k + 20, ?_⟩
  rw [hbytes, hk, pow_add]

theorem Loader.not_usable_of_le (checks : Bool) {mb : UInt32} (h : 4096 ≤ mb.toNat) (l : Loader) :
    ¬ l.Usable checks mb := by
  rintro ⟨bytes, -, hbytes, -⟩
  have hlt := bytes.toNat_lt
  omega

/-- An accepted size is requested as it is exactly if it is below 4096. -/
theorem buffer_usable_iff (checks : Bool) (s : String) (mb : UInt32) (h : parseBufferMb s = .ok mb)
    (l : Loader) : l.Usable checks mb ↔ mb.toNat < 4096 := by
  constructor
  · intro husable
    by_contra hge
    exact l.not_usable_of_le checks (not_lt.mp hge) husable
  · intro hlt
    exact l.usable_of_lt checks hlt (parseBufferMb_eq_ok_iff.mp h).2

theorem buffer_usable_iff_32 : parseBufferMb "32" = .ok 32 ∧ Loader.Usable true 32 .exec :=
  have hparse : parseBufferMb "32" = .ok 32 := by decide
  ⟨hparse, (buffer_usable_iff true "32" 32 hparse .exec).mpr (by decide)⟩

/-- A ring buffer of 4096 MiB is accepted: a build with overflow checks panics,
and one without asks for zero bytes. -/
theorem buffer_4096_not_usable :
    parseBufferMb "4096" = .ok 4096 ∧
      (∀ l : Loader, l.maxEntries true 4096 = none ∧ l.maxEntries false 4096 = some 0) ∧
      ¬ ∀ checks s mb, parseBufferMb s = .ok mb → ∀ l : Loader, l.Usable checks mb := by
  have hparse : parseBufferMb "4096" = .ok 4096 := by decide
  refine ⟨hparse, fun l => ?_, fun h => ?_⟩
  · rw [l.maxEntries_eq, l.maxEntries_eq]
    exact resize_of_le (by decide) (parseBufferMb_eq_ok_iff.mp hparse).2 _
  · exact Loader.not_usable_of_le true (by decide) .exec (h true "4096" 4096 hparse .exec)

end Tracelet
