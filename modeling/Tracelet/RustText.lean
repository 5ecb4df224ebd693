import Mathlib

namespace RustText

/-- `{:0w}`: decimal digits, padded with zeroes on the left to at least `w`. -/
def zeroPad (w n : ℕ) : List Char := List.leftpad w '0' (Nat.toDigits 10 n)

theorem ofDigitChars_zeroPad (w n : ℕ) : Nat.ofDigitChars 10 (zeroPad w n) 0 = n := by
  rw [zeroPad, List.leftpad, Nat.ofDigitChars_append, Nat.ofDigitChars_replicate_zero, Nat.mul_zero,
    Nat.ofDigitChars_ten_toDigits]

theorem zeroPad_injective (w : ℕ) : Function.Injective (zeroPad w) := by
  intro n n' h
  simpa only [ofDigitChars_zeroPad] using congrArg (fun cs => Nat.ofDigitChars 10 cs 0) h

theorem length_zeroPad {w n : ℕ} (hw : 0 < w) (h : n < 10 ^ w) : (zeroPad w n).length = w := by
  have hle : (Nat.toDigits 10 n).length ≤ w := (Nat.length_toDigits_le_iff (by norm_num) hw).mpr h
  simp only [zeroPad, List.leftpad, List.length_append, List.length_replicate]
  omega

def asBytes (s : String) : List UInt8 := s.toList.flatMap String.utf8EncodeChar

/-- Read the continuation bytes that a lead byte owes. Only the first of them
has a narrowed range; a byte outside it ends the ill-formed piece unread. -/
def tails : ℕ → UInt8 → UInt8 → ℕ → List UInt8 → Option Char × List UInt8
  | 0, _, _, acc, rest => (some (Char.ofNat acc), rest)
  | _ + 1, _, _, _, [] => (none, [])
  | n + 1, lo, hi, acc, b :: rest =>
    if lo ≤ b ∧ b ≤ hi then tails n 0x80 0xBF (64 * acc + b.toNat % 64) rest
    else (none, b :: rest)

/-- The first scalar value of `b :: rest`, or `none` for a maximal ill-formed
piece, with the bytes after it. -/
def nextChunk (b : UInt8) (rest : List UInt8) : Option Char × List UInt8 :=
  if b < 0x80 then (some (Char.ofNat b.toNat), rest)
  else if b < 0xC2 then (none, rest)
  else if b < 0xE0 then tails 1 0x80 0xBF (b.toNat % 32) rest
  else if b < 0xF0 then
    tails 2 (if b = 0xE0 then 0xA0 else 0x80) (if b = 0xED then 0x9F else 0xBF) (b.toNat % 16) rest
  else if b < 0xF5 then
    tails 3 (if b = 0xF0 then 0x90 else 0x80) (if b = 0xF4 then 0x8F else 0xBF) (b.toNat % 8) rest
  else (none, rest)

/-- `chunks` with fuel; every chunk takes at least one byte. -/
def chunksFuel : ℕ → List UInt8 → List (Option Char)
  | 0, _ => []
  | _ + 1, [] => []
  | n + 1, b :: rest => (nextChunk b rest).1 :: chunksFuel n (nextChunk b rest).2

def chunks (bs : List UInt8) : List (Option Char) := chunksFuel bs.length bs

/-- `str::from_utf8(bs).ok()`. -/
def fromUtf8 (bs : List UInt8) : Option String :=
  if (chunks bs).all Option.isSome then some (String.ofList ((chunks bs).filterMap id)) else none

/-- `String::from_utf8_lossy(bs)`: each ill-formed piece becomes U+FFFD. -/
def fromUtf8Lossy (bs : List UInt8) : String :=
  String.ofList ((chunks bs).map fun c => c.getD '\uFFFD')

theorem map_getD_of_all_isSome {α : Type*} (d : α) {cs : List (Option α)}
    (h : cs.all Option.isSome = true) : cs.map (fun c => c.getD d) = cs.filterMap id := by
  induction cs with
  | nil => rfl
  | cons c cs ih =>
    simp only [List.all_cons, Bool.and_eq_true] at h
    obtain ⟨a, rfl⟩ := Option.isSome_iff_exists.mp h.1
    simp [ih h.2]

theorem fromUtf8Lossy_of_fromUtf8 {bs : List UInt8} {s : String} (h : fromUtf8 bs = some s) :
    fromUtf8Lossy bs = s := by
  unfold fromUtf8 at h
  split_ifs at h with hall
  rw [fromUtf8Lossy, map_getD_of_all_isSome _ hall]
  exact Option.some.inj h

theorem chunksFuel_ascii {bs : List UInt8} (h : ∀ b ∈ bs, b < 0x80) {n : ℕ} (hn : bs.length ≤ n) :
    chunksFuel n bs = bs.map fun b => some (Char.ofNat b.toNat) := by
  induction bs generalizing n with
  | nil => cases n <;> rfl
  | cons b bs ih =>
    obtain ⟨n, rfl⟩ : ∃ k, n = k + 1 := ⟨n - 1, by simp at hn; omega⟩
    -- an ASCII byte is a chunk by itself
    have hb : nextChunk b bs = (some (Char.ofNat b.toNat), bs) := if_pos (h b (by simp))
    rw [chunksFuel, hb, ih (fun c hc => h c (by simp [hc])) (by simpa using hn), List.map_cons]

theorem fromUtf8_ascii {bs : List UInt8} (h : ∀ b ∈ bs, b < 0x80) :
    fromUtf8 bs = some (String.ofList (bs.map fun b => Char.ofNat b.toNat)) := by
  have hc : chunks bs = bs.map fun b => some (Char.ofNat b.toNat) := chunksFuel_ascii h le_rfl
  rw [fromUtf8, hc, if_pos (by simp), List.filterMap_map]
  simp

def displayIpv4 (a b c d : UInt8) : String :=
  toString a.toNat ++ "." ++ toString b.toNat ++ "." ++ toString c.toNat ++ "." ++ toString d.toNat

structure Span where
  start : ℕ
  len : ℕ
  deriving DecidableEq

def spanStep (s : Span × Span) (seg : ℕ × ℕ) : Span × Span :=
  if seg.1 = 0 then
    let current : Span := ⟨if s.2.len = 0 then seg.2 else s.2.start, s.2.len + 1⟩
    (if s.1.len < current.len then current else s.1, current)
  else (s.1, ⟨0, 0⟩)

def longestZeroes (segs : List ℕ) : Span := (segs.zipIdx.foldl spanStep (⟨0, 0⟩, ⟨0, 0⟩)).1

def displaySegments (segs : List ℕ) : String :=
  String.intercalate ":" (segs.map fun s => String.ofList (Nat.toDigits 16 s))

def segments (bs : Vector UInt8 16) : List ℕ :=
  List.ofFn fun i : Fin 8 => 256 * (bs[2 * i.val]).toNat + (bs[2 * i.val + 1]).toNat

/-- `Ipv6Addr`: IPv4-mapped addresses keep dots, and the first longest run of
at least two zero segments is written `::`. -/
def displayIpv6 (bs : Vector UInt8 16) : String :=
  let segs := segments bs
  if segs.take 6 = [0, 0, 0, 0, 0, 0xFFFF] then
    "::ffff:" ++ displayIpv4 bs[12] bs[13] bs[14] bs[15]
  else
    let zeroes := longestZeroes segs
    if 1 < zeroes.len then
      displaySegments (segs.take zeroes.start) ++ "::" ++
        displaySegments (segs.drop (zeroes.start + zeroes.len))
    else displaySegments segs

example : displayIpv6 #v[0xfe, 0x80, 0, 0, 0, 0, 0, 0, 0, 0, 0, 0, 0, 0, 0, 1] = "fe80::1" := by
  decide

/-- The quotient to the nearest whole number, and to the even one of two that are
equally near. -/
def roundHalfEven (n d : ℕ) : ℕ :=
  match compare (2 * (n % d)) d with
  | .lt => n / d
  | .eq => n / d + n / d % 2
  | .gt => n / d + 1

/-- `n` units of the last of `places` decimals. -/
def fixedPoint (places n : ℕ) : List Char :=
  Nat.toDigits 10 (n / 10 ^ places) ++ '.' :: zeroPad places (n % 10 ^ places)

def signText : Float.Model.UnpackedFloat.Sign → List Char
  | .positive => []
  | .negative => ['-']

/-- `{:.places}` of an `f64`: its exact value is rounded once, to that many decimals. -/
def displayFixed (places : ℕ) (x : Float) : List Char :=
  match x.toModel.unpack with
  | .notANumber => "NaN".toList
  | .infinity sign => signText sign ++ "inf".toList
  | .zero sign => signText sign ++ fixedPoint places 0
  | .finite sign m e _ =>
    -- the value is `m * 2 ^ e`
    signText sign ++ fixedPoint places
      (if 0 ≤ e then m * 2 ^ e.toNat * 10 ^ places
      else roundHalfEven (m * 10 ^ places) (2 ^ (-e).toNat))

-- a tie goes to the even digit, and 0.35 is a little less than its name says
example : (displayFixed 1 0.25, displayFixed 1 0.75, displayFixed 1 0.35) =
    ("0.2".toList, "0.8".toList, "0.3".toList) := by
  decide +kernel

/-- Nothing but printable ASCII. -/
def Plain (cs : List Char) : Prop := ∀ c ∈ cs, 0x20 ≤ c.toNat ∧ c.toNat < 0x7f

instance (cs : List Char) : Decidable (Plain cs) :=
  inferInstanceAs (Decidable (∀ c ∈ cs, 0x20 ≤ c.toNat ∧ c.toNat < 0x7f))

@[simp] theorem plain_nil : Plain [] := by simp [Plain]

@[simp] theorem plain_cons {c : Char} {cs : List Char} :
    Plain (c :: cs) ↔ (0x20 ≤ c.toNat ∧ c.toNat < 0x7f) ∧ Plain cs := List.forall_mem_cons

@[simp] theorem plain_append {cs ds : List Char} : Plain (cs ++ ds) ↔ Plain cs ∧ Plain ds :=
  List.forall_mem_append

theorem plain_flatMap {α : Type*} {xs : List α} {f : α → List Char} (h : ∀ x ∈ xs, Plain (f x)) :
    Plain (xs.flatMap f) := by
  intro c hc
  obtain ⟨x, hx, hcx⟩ := List.mem_flatMap.mp hc
  exact h x hx c hcx

theorem Plain.newline_notMem {cs : List Char} (h : Plain cs) : '\n' ∉ cs := by
  intro hmem
  exact absurd (h '\n' hmem).1 (by decide)

def Ascii (cs : List Char) : Prop := ∀ c ∈ cs, c.toNat < 0x80

theorem Plain.ascii {cs : List Char} (h : Plain cs) : Ascii cs := by
  intro c hc
  have hlt := (h c hc).2
  omega

theorem length_utf8EncodeChar_eq_one_iff (c : Char) :
    (String.utf8EncodeChar c).length = 1 ↔ c.toNat < 0x80 := by
  rw [String.length_utf8EncodeChar, Char.utf8Size_eq_one_iff, UInt32.le_iff_toNat_le]
  exact Nat.lt_succ_iff.symm

theorem asBytes_of_ascii {s : String} (h : Ascii s.toList) :
    asBytes s = s.toList.map fun c => UInt8.ofNat c.toNat := by
  have hchar : ∀ c ∈ s.toList, String.utf8EncodeChar c = [UInt8.ofNat c.toNat] := by
    intro c hc
    apply String.utf8EncodeChar_eq_singleton
    rw [← String.length_utf8EncodeChar]
    exact (length_utf8EncodeChar_eq_one_iff c).mpr (h c hc)
  rw [asBytes, List.flatMap_congr hchar, List.map_eq_flatMap]

theorem one_le_length_utf8EncodeChar (c : Char) : 1 ≤ (String.utf8EncodeChar c).length := by
  rw [String.length_utf8EncodeChar]
  exact c.utf8Size_pos

theorem length_le_length_utf8 (cs : List Char) :
    cs.length ≤ (cs.flatMap String.utf8EncodeChar).length := by
  induction cs with
  | nil => exact le_rfl
  | cons c cs ih =>
    have hc := one_le_length_utf8EncodeChar c
    rw [List.flatMap_cons, List.length_append, List.length_cons]
    omega

theorem ascii_of_length_le {cs : List Char}
    (h : (cs.flatMap String.utf8EncodeChar).length ≤ cs.length) : Ascii cs := by
  induction cs with
  | nil => simp [Ascii]
  | cons c cs ih =>
    have hc := one_le_length_utf8EncodeChar c
    have hcs := length_le_length_utf8 cs
    rw [List.flatMap_cons, List.length_append, List.length_cons] at h
    have hascii : c.toNat < 0x80 := (length_utf8EncodeChar_eq_one_iff c).mp (by omega)
    exact List.forall_mem_cons.mpr ⟨hascii, ih (by omega)⟩

theorem ofNat_toNat_of_ascii {cs : List Char} (h : Ascii cs) :
    (cs.map fun c => UInt8.ofNat c.toNat).map (fun b => Char.ofNat b.toNat) = cs := by
  rw [List.map_map]
  conv_rhs => rw [← List.map_id cs]
  apply List.map_congr_left
  intro c hc
  have hlt : c.toNat < 2 ^ 8 := (h c hc).trans (by decide)
  rw [Function.comp_apply, UInt8.toNat_ofNat_of_lt' hlt, Char.ofNat_toNat, id]

def charPerByte (s : String) : String :=
  String.ofList ((asBytes s).map fun b => Char.ofNat b.toNat)

theorem charPerByte_eq_self_iff {s : String} : charPerByte s = s ↔ Ascii s.toList := by
  constructor
  · intro h
    apply ascii_of_length_le
    have hlist := congrArg (fun t => t.toList.length) h
    simp only [charPerByte, String.toList_ofList, List.length_map] at hlist
    exact hlist.le
  · intro h
    rw [charPerByte, asBytes_of_ascii h, ofNat_toNat_of_ascii h, String.ofList_toList]

theorem plain_digitChar {k : ℕ} (h : k < 16) :
    0x20 ≤ k.digitChar.toNat ∧ k.digitChar.toNat < 0x7f := by
  interval_cases k <;> decide

theorem plain_toDigits {b : ℕ} (hb : 1 < b) (hle : b ≤ 16) (n : ℕ) : Plain (Nat.toDigits b n) := by
  induction n using Nat.strong_induction_on with
  | _ n ih =>
    rw [Nat.toDigits_eq_if hb]
    split_ifs with hlt
    · simpa using plain_digitChar (by omega)
    · have hmod := Nat.mod_lt n (show 0 < b by omega)
      rw [plain_append]
      exact ⟨ih (n / b) (Nat.div_lt_self (by omega) hb), by simpa using plain_digitChar (by omega)⟩

theorem plain_leftpad {cs : List Char} (h : Plain cs) (w : ℕ) : Plain (List.leftpad w '0' cs) := by
  rw [List.leftpad, plain_append]
  refine ⟨fun c hc => ?_, h⟩
  rw [List.eq_of_mem_replicate hc]
  decide

theorem toList_toString (n : ℕ) : (toString n).toList = Nat.toDigits 10 n := by
  rw [Nat.toString_eq_ofList_toDigits, String.toList_ofList]

@[simp] theorem plain_toDigits_ten (n : ℕ) : Plain (Nat.toDigits 10 n) :=
  plain_toDigits (by decide) (by decide) n

theorem plain_zeroPad (w n : ℕ) : Plain (zeroPad w n) := plain_leftpad (plain_toDigits_ten n) w

theorem plain_toString (n : ℕ) : Plain (toString n).toList := by
  rw [toList_toString]
  exact plain_toDigits_ten n

theorem isDigit_of_mem_zeroPad {w n : ℕ} {c : Char} (h : c ∈ zeroPad w n) : c.isDigit = true := by
  rw [zeroPad, List.leftpad, List.mem_append] at h
  rcases h with h | h
  · rw [List.eq_of_mem_replicate h]
    decide
  · exact Nat.isDigit_of_mem_toDigits (by decide) (by decide) h

theorem blank_notMem_toDigits (n : ℕ) : ' ' ∉ Nat.toDigits 10 n := by
  intro h
  exact absurd (Nat.isDigit_of_mem_toDigits (by decide) (by decide) h) (by decide)

theorem blank_notMem_zeroPad (w n : ℕ) : ' ' ∉ zeroPad w n := by
  intro h
  exact absurd (isDigit_of_mem_zeroPad h) (by decide)

theorem blank_notMem_toString (n : ℕ) : ' ' ∉ (toString n).toList := by
  rw [toList_toString]
  exact blank_notMem_toDigits n

theorem mem_displayFixed {places : ℕ} {x : Float} {c : Char} (h : c ∈ displayFixed places x) :
    c.isDigit = true ∨ c ∈ "NaN-inf.".toList := by
  have hsign : ∀ sign, c ∈ signText sign → c ∈ "NaN-inf.".toList := by
    intro sign
    cases sign with
    | positive => exact fun hc => (List.not_mem_nil hc).elim
    | negative => exact fun hc => (show ['-'] ⊆ "NaN-inf.".toList by decide) hc
  have hfixed : ∀ n, c ∈ fixedPoint places n → c.isDigit = true ∨ c ∈ "NaN-inf.".toList := by
    intro n hc
    rw [fixedPoint, List.mem_append, List.mem_cons] at hc
    rcases hc with hc | rfl | hc
    · exact .inl (Nat.isDigit_of_mem_toDigits (by decide) (by decide) hc)
    · exact .inr (by decide)
    · exact .inl (isDigit_of_mem_zeroPad hc)
  unfold displayFixed at h
  -- the four shapes of an unpacked float
  split at h
  · exact .inr ((show "NaN".toList ⊆ "NaN-inf.".toList by decide) h)
  · rcases List.mem_append.mp h with h | h
    · exact .inr (hsign _ h)
    · exact .inr ((show "inf".toList ⊆ "NaN-inf.".toList by decide) h)
  · rcases List.mem_append.mp h with h | h
    · exact .inr (hsign _ h)
    · exact hfixed _ h
  · rcases List.mem_append.mp h with h | h
    · exact .inr (hsign _ h)
    · exact hfixed _ h

theorem blank_notMem_displayFixed (places : ℕ) (x : Float) : ' ' ∉ displayFixed places x := by
  intro h
  rcases mem_displayFixed h with h | h
  · exact absurd h (by decide)
  · exact absurd h (by decide)

theorem plain_displayFixed (places : ℕ) (x : Float) : Plain (displayFixed places x) := by
  have hother : Plain "NaN-inf.".toList := by simp
  intro c hc
  rcases mem_displayFixed hc with hdigit | hc
  · have hrange := Char.isDigit_iff_toNat.mp hdigit
    simp at hrange
    omega
  · exact hother c hc

theorem plain_displayIpv4 (a b c d : UInt8) : Plain (displayIpv4 a b c d).toList := by
  have hdot : Plain ".".toList := by simp
  simp only [displayIpv4, String.toList_append, plain_append, plain_toString, hdot, and_self]

theorem plain_displaySegments (segs : List ℕ) : Plain (displaySegments segs).toList := by
  unfold displaySegments
  induction segs with
  | nil => simp
  | cons seg segs ih =>
    have hseg : Plain (Nat.toDigits 16 seg) := plain_toDigits (by decide) (by decide) seg
    cases segs with
    | nil => simpa using hseg
    | cons seg' segs =>
      have hcolon : Plain ":".toList := by simp
      rw [List.map_cons, String.intercalate_cons_of_ne_nil (by simp)]
      simp only [String.toList_append, String.toList_ofList, plain_append]
      exact ⟨⟨hseg, hcolon⟩, ih⟩

theorem plain_displayIpv6 (bs : Vector UInt8 16) : Plain (displayIpv6 bs).toList := by
  unfold displayIpv6
  dsimp only
  split_ifs <;> simp [plain_displayIpv4, plain_displaySegments]

end RustText
