import Tracelet.RustParse

namespace Tracelet
open RustParse

/-- `std::time::Duration`: whole seconds, and less than one second on top. -/
structure Duration where
  secs : UInt64
  nanos : UInt32
  nanos_lt : nanos.toNat < 1000000000

namespace Duration

def toNanos (d : Duration) : ℕ := d.secs.toNat * 1000000000 + d.nanos.toNat

theorem toNat_subMillis (v : UInt64) :
    ((v % 1000).toUInt32 * 1000000).toNat = v.toNat % 1000 * 1000000 := by
  have h : v.toNat % 1000 < 1000 := Nat.mod_lt _ (by decide)
  have hr : (v % 1000).toUInt32.toNat = v.toNat % 1000 := by
    rw [UInt64.toNat_toUInt32, UInt64.toNat_mod]
    exact Nat.mod_eq_of_lt (h.trans (by norm_num))
  have hm : (1000000 : UInt32).toNat = 1000000 := rfl
  rw [UInt32.toNat_mul, hr, hm]
  exact Nat.mod_eq_of_lt (by omega)

def fromMillis (v : UInt64) : Duration where
  secs := v / 1000
  nanos := (v % 1000).toUInt32 * 1000000
  nanos_lt := by
    have h : v.toNat % 1000 < 1000 := Nat.mod_lt _ (by decide)
    rw [toNat_subMillis]
    omega

def fromSecs (v : UInt64) : Duration := ⟨v, 0, Nat.zero_lt_succ _⟩

theorem toNanos_fromMillis (v : UInt64) : (fromMillis v).toNanos = v.toNat * 1000000 := by
  have hsecs : (v / 1000).toNat = v.toNat / 1000 := UInt64.toNat_div v 1000
  rw [toNanos, fromMillis, toNat_subMillis, hsecs]
  omega

theorem toNanos_fromSecs (v : UInt64) : (fromSecs v).toNanos = v.toNat * 1000000000 := by
  rw [toNanos, fromSecs, UInt32.toNat_zero, Nat.add_zero]

theorem toNanos_injective : Function.Injective toNanos := by
  intro a b h
  have ha := a.nanos_lt
  have hb := b.nanos_lt
  unfold toNanos at h
  have hsecs : a.secs = b.secs := UInt64.toNat_inj.mp (by omega)
  have hnanos : a.nanos = b.nanos := UInt32.toNat_inj.mp (by omega)
  cases a
  cases b
  subst hsecs hnanos
  rfl

end Duration

/-- `v * factor`. A build with overflow checks panics where one without wraps;
`none` is the panic. -/
def scale (checks : Bool) (v factor : UInt64) : Option UInt64 :=
  if v.toNat * factor.toNat < 2 ^ 64 then some (v * factor)
  else if checks then none
  else some (v * factor)

/-- `n.parse::<u64>().map(length).map_err(|e| e.to_string())`. -/
def parseLength (n : List Char) (length : UInt64 → Option Duration) :
    Option (Except String Duration) :=
  match parseU64 n with
  | .ok v => (length v).map .ok
  | .error e => some (.error e.message)

def parseDuration (checks : Bool) (s : String) : Option (Except String Duration) :=
  let s := trim s.toList
  match stripSuffix s ['m', 's'] with
  | some n => parseLength n fun v => some (.fromMillis v)
  | none =>
    match stripSuffix s ['s'] with
    | some n => parseLength n fun v => some (.fromSecs v)
    | none =>
      match stripSuffix s ['m'] with
      | some n => parseLength n fun v => (scale checks v 60).map .fromSecs
      | none =>
        match stripSuffix s ['h'] with
        | some n => parseLength n fun v => (scale checks v 3600).map .fromSecs
        | none =>
          some (.error ("invalid duration '" ++ String.ofList s ++ "': use Ns, Nm, Nms, or Nh"))

inductive TimeUnit where
  | ms | s | m | h
  deriving DecidableEq

namespace TimeUnit

def text : TimeUnit → List Char
  | ms => ['m', 's']
  | s => ['s']
  | m => ['m']
  | h => ['h']

def nanos : TimeUnit → ℕ
  | ms => 1000000
  | s => 1000000000
  | m => 60 * 1000000000
  | h => 3600 * 1000000000

def length (checks : Bool) : TimeUnit → UInt64 → Option Duration
  | ms, v => some (.fromMillis v)
  | s, v => some (.fromSecs v)
  | m, v => (scale checks v 60).map .fromSecs
  | h, v => (scale checks v 3600).map .fromSecs

end TimeUnit

/-- The trimmed text is a literal and its unit. -/
def Reads (text : String) (lit : List Char) (u : TimeUnit) : Prop :=
  trim text.toList = lit ++ u.text

/-- The text asks for exactly this length of time. -/
def Asks (text : String) (d : Duration) : Prop :=
  ∃ lit u v, Reads text lit u ∧ IsU64Literal lit v ∧ d.toNanos = v.toNat * u.nanos

/-- `parse_duration` accepts what asks for a duration, with that duration, and
returns an error otherwise. -/
structure Meets (checks : Bool) (text : String) : Prop where
  ok : ∀ d, parseDuration checks text = some (.ok d) ↔ Asks text d
  error : (∀ d, ¬ Asks text d) → ∃ e, parseDuration checks text = some (.error e)

/-- The number of minutes or hours is too large for its seconds to fit in a `u64`. -/
def TooLong (text : String) : Prop :=
  ∃ lit v, IsU64Literal lit v ∧
    (Reads text lit .m ∧ 2 ^ 64 ≤ v.toNat * 60 ∨ Reads text lit .h ∧ 2 ^ 64 ≤ v.toNat * 3600)

/-- The first unit that ends the text, and what is in front of it. -/
def splitUnit (cs : List Char) : Option (List Char × TimeUnit) :=
  [TimeUnit.ms, .s, .m, .h].findSome? fun u => (stripSuffix cs u.text).map fun n => (n, u)

theorem parseDuration_eq (checks : Bool) (text : String) :
    parseDuration checks text =
      match splitUnit (trim text.toList) with
      | some (n, u) => parseLength n (u.length checks)
      | none => some (.error
          ("invalid duration '" ++ String.ofList (trim text.toList) ++
            "': use Ns, Nm, Nms, or Nh")) := by
  simp only [parseDuration, splitUnit, List.findSome?_cons, List.findSome?_nil, TimeUnit.text]
  cases stripSuffix (trim text.toList) ['m', 's'] with
  | some n => rfl
  | none =>
    cases stripSuffix (trim text.toList) ['s'] with
    | some n => rfl
    | none =>
      cases stripSuffix (trim text.toList) ['m'] with
      | some n => rfl
      | none => cases stripSuffix (trim text.toList) ['h'] <;> rfl

theorem reads_of_splitUnit {text : String} {n : List Char} {u : TimeUnit}
    (h : splitUnit (trim text.toList) = some (n, u)) : Reads text n u := by
  obtain ⟨w, -, hw⟩ := List.exists_of_findSome?_eq_some h
  obtain ⟨m, hm, he⟩ := Option.map_eq_some_iff.mp hw
  obtain ⟨rfl, rfl⟩ := Prod.mk.inj he
  exact stripSuffix_eq_some_iff.mp hm

/-- The overlapping suffixes do no harm, because no literal ends in `m`. -/
theorem splitUnit_of_reads {text : String} {lit : List Char} {u : TimeUnit} {v : UInt64}
    (hreads : Reads text lit u) (hlit : IsU64Literal lit v) :
    splitUnit (trim text.toList) = some (lit, u) := by
  have hm : 'm' ∉ lit := by
    intro hmem
    rcases hlit.mem hmem with h | h
    · exact absurd h (by decide)
    · exact absurd h (by decide)
  have hsome : stripSuffix (lit ++ u.text) u.text = some lit := stripSuffix_eq_some_iff.mpr rfl
  rw [show trim text.toList = lit ++ u.text from hreads]
  simp only [splitUnit, List.findSome?_cons, List.findSome?_nil]
  -- `ms` is tried before `s` and `m`, and no literal ends in `m`
  cases u with
  | ms => rw [hsome, Option.map_some]
  | s =>
    have h1 : stripSuffix (lit ++ TimeUnit.s.text) TimeUnit.ms.text = none := by
      apply Option.eq_none_iff_forall_ne_some.mpr
      intro n hn
      have happend : lit ++ ['s'] = (n ++ ['m']) ++ ['s'] := by
        rw [List.append_assoc]
        exact stripSuffix_eq_some_iff.mp hn
      exact hm (by simp [List.append_cancel_right happend])
    rw [h1, hsome, Option.map_none, Option.map_some]
  | m =>
    have h1 : stripSuffix (lit ++ TimeUnit.m.text) TimeUnit.ms.text = none :=
      stripSuffix_eq_none (by decide) lit ['m']
    have h2 : stripSuffix (lit ++ TimeUnit.m.text) TimeUnit.s.text = none :=
      stripSuffix_eq_none (by decide) lit []
    rw [h1, h2, hsome, Option.map_none, Option.map_none, Option.map_some]
  | h =>
    have h1 : stripSuffix (lit ++ TimeUnit.h.text) TimeUnit.ms.text = none :=
      stripSuffix_eq_none (by decide) lit ['m']
    have h2 : stripSuffix (lit ++ TimeUnit.h.text) TimeUnit.s.text = none :=
      stripSuffix_eq_none (by decide) lit []
    have h3 : stripSuffix (lit ++ TimeUnit.h.text) TimeUnit.m.text = none :=
      stripSuffix_eq_none (by decide) lit []
    rw [h1, h2, h3, hsome, Option.map_none, Option.map_none, Option.map_none, Option.map_some]

theorem Reads.unique {text : String} {lit lit' : List Char} {u u' : TimeUnit} {v v' : UInt64}
    (h : Reads text lit u) (hlit : IsU64Literal lit v) (h' : Reads text lit' u')
    (hlit' : IsU64Literal lit' v') : v = v' ∧ u = u' := by
  have heq := (splitUnit_of_reads h hlit).symm.trans (splitUnit_of_reads h' hlit')
  obtain ⟨rfl, rfl⟩ := Prod.mk.inj (Option.some.inj heq)
  exact ⟨hlit.unique hlit', rfl⟩

theorem parseDuration_of_reads (checks : Bool) {text : String} {lit : List Char} {u : TimeUnit}
    {v : UInt64} (hreads : Reads text lit u) (hlit : IsU64Literal lit v) :
    parseDuration checks text = (u.length checks v).map .ok := by
  rw [parseDuration_eq, splitUnit_of_reads hreads hlit]
  simp only [parseLength, parseU64_eq_ok_iff.mpr hlit]

theorem parseDuration_of_not_reads (checks : Bool) {text : String}
    (h : ∀ lit u v, Reads text lit u → ¬ IsU64Literal lit v) :
    ∃ e, parseDuration checks text = some (.error e) := by
  rw [parseDuration_eq]
  cases hs : splitUnit (trim text.toList) with
  | none => exact ⟨_, rfl⟩
  | some nu =>
    obtain ⟨n, u⟩ := nu
    simp only [parseLength]
    cases hp : parseU64 n with
    | error e => exact ⟨_, rfl⟩
    | ok v => exact absurd (parseU64_eq_ok_iff.mp hp) (h n u v (reads_of_splitUnit hs))

def TimeUnit.factor : TimeUnit → ℕ
  | ms => 1
  | s => 1
  | m => 60
  | h => 3600

theorem scale_of_lt (checks : Bool) {v factor : UInt64} (h : v.toNat * factor.toNat < 2 ^ 64) :
    scale checks v factor = some (v * factor) := if_pos h

theorem toNanos_scaled {v factor : UInt64} {k : ℕ} (hk : factor.toNat = k)
    (h : v.toNat * k < 2 ^ 64) :
    (Duration.fromSecs (v * factor)).toNanos = v.toNat * (k * 1000000000) := by
  rw [Duration.toNanos_fromSecs, UInt64.toNat_mul, hk, Nat.mod_eq_of_lt h, Nat.mul_assoc]

theorem length_of_lt (checks : Bool) {u : TimeUnit} {v : UInt64} (h : v.toNat * u.factor < 2 ^ 64) :
    ∃ d, u.length checks v = some d ∧ d.toNanos = v.toNat * u.nanos := by
  cases u with
  | ms => exact ⟨_, rfl, Duration.toNanos_fromMillis v⟩
  | s => exact ⟨_, rfl, Duration.toNanos_fromSecs v⟩
  | m =>
    refine ⟨.fromSecs (v * 60), ?_, toNanos_scaled (k := 60) rfl h⟩
    rw [TimeUnit.length, scale_of_lt checks h, Option.map_some]
  | h =>
    refine ⟨.fromSecs (v * 3600), ?_, toNanos_scaled (k := 3600) rfl h⟩
    rw [TimeUnit.length, scale_of_lt checks h, Option.map_some]

theorem not_tooLong_iff {text : String} {lit : List Char} {u : TimeUnit} {v : UInt64}
    (hreads : Reads text lit u) (hlit : IsU64Literal lit v) :
    ¬ TooLong text ↔ v.toNat * u.factor < 2 ^ 64 := by
  rw [← not_le, not_iff_not]
  constructor
  · rintro ⟨lit', v', hlit', ⟨hreads', hge⟩ | ⟨hreads', hge⟩⟩
    · obtain ⟨rfl, rfl⟩ := hreads.unique hlit hreads' hlit'
      exact hge
    · obtain ⟨rfl, rfl⟩ := hreads.unique hlit hreads' hlit'
      exact hge
  · intro hge
    have hv := v.toNat_lt
    cases u with
    | ms => exact absurd hge (by simpa [TimeUnit.factor] using hv)
    | s => exact absurd hge (by simpa [TimeUnit.factor] using hv)
    | m => exact ⟨lit, v, hlit, .inl ⟨hreads, hge⟩⟩
    | h => exact ⟨lit, v, hlit, .inr ⟨hreads, hge⟩⟩

theorem toNanos_ne_of_le {u : TimeUnit} {v : UInt64} (h : 2 ^ 64 ≤ v.toNat * u.factor)
    (d : Duration) : d.toNanos ≠ v.toNat * u.nanos := by
  have hv := v.toNat_lt
  have hsecs := d.secs.toNat_lt
  have hnanos := d.nanos_lt
  unfold Duration.toNanos
  cases u with
  | ms => exact absurd h (by simpa [TimeUnit.factor] using hv)
  | s => exact absurd h (by simpa [TimeUnit.factor] using hv)
  | m =>
    simp only [TimeUnit.factor, TimeUnit.nanos] at h ⊢
    omega
  | h =>
    simp only [TimeUnit.factor, TimeUnit.nanos] at h ⊢
    omega

/-- What a text with a reading asks for. -/
theorem asks_iff {text : String} {lit : List Char} {u : TimeUnit} {v : UInt64}
    (hreads : Reads text lit u) (hlit : IsU64Literal lit v) (d : Duration) :
    Asks text d ↔ d.toNanos = v.toNat * u.nanos := by
  constructor
  · rintro ⟨lit', u', v', hreads', hlit', hd⟩
    obtain ⟨rfl, rfl⟩ := hreads.unique hlit hreads' hlit'
    exact hd
  · exact fun hd => ⟨lit, u, v, hreads, hlit, hd⟩

theorem not_meets_of_le (checks : Bool) {text : String} {lit : List Char}
    {u : TimeUnit} {v : UInt64} (hreads : Reads text lit u) (hlit : IsU64Literal lit v)
    (hge : 2 ^ 64 ≤ v.toNat * u.factor) :
    ¬ Meets checks text := by
  intro h
  have hnone : ∀ d, ¬ Asks text d := fun d hd =>
    toNanos_ne_of_le hge d ((asks_iff hreads hlit d).mp hd)
  obtain ⟨e, he⟩ := h.error hnone
  rw [parseDuration_of_reads checks hreads hlit] at he
  obtain ⟨d, -, hd⟩ := Option.map_eq_some_iff.mp he
  cases hd

theorem meets_of_lt (checks : Bool) {text : String} {lit : List Char} {u : TimeUnit} {v : UInt64}
    (hreads : Reads text lit u) (hlit : IsU64Literal lit v) (hlt : v.toNat * u.factor < 2 ^ 64) :
    Meets checks text := by
  have hasks := asks_iff hreads hlit
  obtain ⟨d, hlength, hd⟩ := length_of_lt checks hlt
  have hparse : parseDuration checks text = some (.ok d) := by
    rw [parseDuration_of_reads checks hreads hlit, hlength, Option.map_some]
  refine ⟨fun d' => ?_, fun hnone => absurd ((hasks d).mpr hd) (hnone d)⟩
  rw [hparse, hasks, Option.some.injEq, Except.ok.injEq, ← hd]
  exact ⟨fun h => h ▸ rfl, fun h => (Duration.toNanos_injective h).symm⟩

theorem meets_of_not_reads (checks : Bool) {text : String}
    (hno : ∀ lit u v, Reads text lit u → ¬ IsU64Literal lit v) : Meets checks text := by
  obtain ⟨e, he⟩ := parseDuration_of_not_reads checks hno
  refine ⟨fun d => ?_, fun _ => ⟨e, he⟩⟩
  rw [he]
  refine iff_of_false (by simp) ?_
  rintro ⟨lit, u, v, hreads, hlit, -⟩
  exact hno lit u v hreads hlit

/-- `parse_duration` does what its grammar says exactly if the number of minutes
or hours fits in a `u64` of seconds, in a build of either kind. -/
theorem parseDuration_meets_iff (checks : Bool) (text : String) :
    Meets checks text ↔ ¬ TooLong text := by
  by_cases hex : ∃ lit u v, Reads text lit u ∧ IsU64Literal lit v
  · obtain ⟨lit, u, v, hreads, hlit⟩ := hex
    rw [not_tooLong_iff hreads hlit]
    constructor
    · intro h
      by_contra hge
      exact not_meets_of_le checks hreads hlit (not_lt.mp hge) h
    · exact meets_of_lt checks hreads hlit
  · have hno : ∀ lit u v, Reads text lit u → ¬ IsU64Literal lit v :=
      fun lit u v hreads hlit => hex ⟨lit, u, v, hreads, hlit⟩
    refine iff_of_true (meets_of_not_reads checks hno) ?_
    rintro ⟨lit, v, hlit, ⟨hreads, -⟩ | ⟨hreads, -⟩⟩
    · exact hno lit .m v hreads hlit
    · exact hno lit .h v hreads hlit

/-- Four hundred quadrillion minutes: a build with overflow checks panics, and
one without returns a shorter time. -/
theorem parseDuration_overflow :
    parseDuration true "400000000000000000m" = none ∧
      parseDuration false "400000000000000000m" = some (.ok (.fromSecs 5553255926290448384)) ∧
      ¬ ∀ checks text, Meets checks text := by
  have hlit : IsU64Literal "400000000000000000".toList 400000000000000000 :=
    parseU64_eq_ok_iff.mp (by decide)
  have hreads : Reads "400000000000000000m" "400000000000000000".toList .m := by
    unfold Reads
    decide
  have hparse : ∀ checks, parseDuration checks "400000000000000000m" = _ := fun checks =>
    parseDuration_of_reads checks hreads hlit
  refine ⟨(hparse true).trans rfl, (hparse false).trans rfl, fun h => ?_⟩
  exact not_meets_of_le true hreads hlit (by decide) (h true _)

end Tracelet
