import Mathlib

namespace Json

/-- A number is `mantissa * 10 ^ exponent`. -/
inductive Value where
  | null
  | bool (b : Bool)
  | number (mantissa exponent : ℤ)
  | string (s : String)
  | array (vs : List Value)
  | object (members : List (String × Value))

def Value.ofNat (n : ℕ) : Value := .number n 0

def isSpace (c : Char) : Bool := c == ' ' || c == '\t' || c == '\n' || c == '\r'

def skipSpace (cs : List Char) : List Char := cs.dropWhile isSpace

def hexDigit (c : Char) : Option ℕ :=
  if '0' ≤ c ∧ c ≤ '9' then some (c.toNat - '0'.toNat)
  else if 'a' ≤ c ∧ c ≤ 'f' then some (c.toNat - 'a'.toNat + 10)
  else if 'A' ≤ c ∧ c ≤ 'F' then some (c.toNat - 'A'.toNat + 10)
  else none

def hex4 : List Char → Option (ℕ × List Char)
  | a :: b :: c :: d :: rest => do
    let a ← hexDigit a
    let b ← hexDigit b
    let c ← hexDigit c
    let d ← hexDigit d
    return (4096 * a + 256 * b + 16 * c + d, rest)
  | _ => none

/-- A `\u` escape after its first four digits. A high surrogate needs a low one
behind it. -/
def unicode (u : ℕ) (rest : List Char) : Option (Char × List Char) :=
  if u < 0xD800 ∨ 0xDFFF < u then some (Char.ofNat u, rest)
  else if 0xDBFF < u then none
  else
    match rest with
    | '\\' :: 'u' :: rest => do
      let (l, rest) ← hex4 rest
      if 0xDC00 ≤ l ∧ l ≤ 0xDFFF
      then some (Char.ofNat (0x10000 + 1024 * (u - 0xD800) + (l - 0xDC00)), rest)
      else none
    | _ => none

/-- An escape after its backslash. -/
def escape : List Char → Option (Char × List Char)
  | '"' :: rest => some ('"', rest)
  | '\\' :: rest => some ('\\', rest)
  | '/' :: rest => some ('/', rest)
  | 'b' :: rest => some ('\x08', rest)
  | 'f' :: rest => some ('\x0c', rest)
  | 'n' :: rest => some ('\n', rest)
  | 'r' :: rest => some ('\r', rest)
  | 't' :: rest => some ('\t', rest)
  | 'u' :: rest => (hex4 rest).bind fun (u, rest) => unicode u rest
  | _ => none

def stringBody : ℕ → List Char → Option (List Char × List Char)
  | 0, _ => none
  | _ + 1, [] => none
  | n + 1, c :: cs =>
    if c = '"' then some ([], cs)
    else if c = '\\' then
      (escape cs).bind fun (c, cs) => (stringBody n cs).map fun (body, rest) => (c :: body, rest)
    else if c < ' ' then none
    else (stringBody n cs).map fun (body, rest) => (c :: body, rest)

def spanDigits (cs : List Char) : List Char × List Char :=
  (cs.takeWhile Char.isDigit, cs.dropWhile Char.isDigit)

def fraction : List Char → Option (List Char × List Char)
  | '.' :: cs => if (spanDigits cs).1 = [] then none else some (spanDigits cs)
  | cs => some ([], cs)

def exponentDigits (negative : Bool) (cs : List Char) : Option (ℤ × List Char) :=
  let (ds, rest) := spanDigits cs
  if ds = [] then none
  else
    let e : ℤ := (Nat.ofDigitChars 10 ds 0 : ℕ)
    some (if negative then -e else e, rest)

def exponent : List Char → Option (ℤ × List Char)
  | c :: cs =>
    if c = 'e' ∨ c = 'E' then
      match cs with
      | '+' :: cs => exponentDigits false cs
      | '-' :: cs => exponentDigits true cs
      | cs => exponentDigits false cs
    else some (0, c :: cs)
  | [] => some (0, [])

/-- A number after its sign. More than one digit may not begin with a zero. -/
def unsigned (negative : Bool) (cs : List Char) : Option (Value × List Char) := do
  let (ds, cs) := spanDigits cs
  if ds = [] ∨ (ds.head? = some '0' ∧ 1 < ds.length) then none
  else
    let (fs, cs) ← fraction cs
    let (e, cs) ← exponent cs
    let m : ℤ := (Nat.ofDigitChars 10 (ds ++ fs) 0 : ℕ)
    return (.number (if negative then -m else m) (e - fs.length), cs)

def number : List Char → Option (Value × List Char)
  | '-' :: cs => unsigned true cs
  | cs => unsigned false cs

mutual

def value : ℕ → List Char → Option (Value × List Char)
  | 0, _ => none
  | n + 1, cs =>
    match skipSpace cs with
    | '\x7b' :: cs =>
      match skipSpace cs with
      | '\x7d' :: cs => some (.object [], cs)
      | cs => (members n cs).map fun (ms, rest) => (.object ms, rest)
    | '[' :: cs =>
      match skipSpace cs with
      | ']' :: cs => some (.array [], cs)
      | cs => (elements n cs).map fun (vs, rest) => (.array vs, rest)
    | '"' :: cs => (stringBody cs.length cs).map fun (s, rest) => (.string (String.ofList s), rest)
    | 't' :: 'r' :: 'u' :: 'e' :: cs => some (.bool true, cs)
    | 'f' :: 'a' :: 'l' :: 's' :: 'e' :: cs => some (.bool false, cs)
    | 'n' :: 'u' :: 'l' :: 'l' :: cs => some (.null, cs)
    | cs => number cs

def members : ℕ → List Char → Option (List (String × Value) × List Char)
  | 0, _ => none
  | n + 1, cs =>
    match skipSpace cs with
    | '"' :: cs => do
      let (k, cs) ← stringBody cs.length cs
      match skipSpace cs with
      | ':' :: cs => do
        let (v, cs) ← value n cs
        match skipSpace cs with
        | ',' :: cs => do
          let (ms, cs) ← members n cs
          return ((String.ofList k, v) :: ms, cs)
        | '\x7d' :: cs => some ([(String.ofList k, v)], cs)
        | _ => none
      | _ => none
    | _ => none

def elements : ℕ → List Char → Option (List Value × List Char)
  | 0, _ => none
  | n + 1, cs => do
    let (v, cs) ← value n cs
    match skipSpace cs with
    | ',' :: cs => do
      let (vs, cs) ← elements n cs
      return (v :: vs, cs)
    | ']' :: cs => some ([v], cs)
    | _ => none

end

/-- A whole text: one value with white space around it. -/
def parse (cs : List Char) : Option Value :=
  (value (cs.length + 1) cs).bind fun (v, rest) => if skipSpace rest = [] then some v else none

def Encodes (body cs : List Char) : Prop :=
  ∀ n rest, body.length < n → stringBody n (body ++ '"' :: rest) = some (cs, rest)

theorem encodes_nil : Encodes [] [] := by
  intro n rest hn
  obtain ⟨n, rfl⟩ := Nat.exists_eq_add_of_lt hn
  simp [stringBody]

theorem Encodes.plain {body cs : List Char} (h : Encodes body cs) {c : Char} (hquote : c ≠ '"')
    (hslash : c ≠ '\\') (hspace : ¬ c < ' ') : Encodes (c :: body) (c :: cs) := by
  intro n rest hn
  cases n with
  | zero => omega
  | succ n =>
    rw [List.cons_append, stringBody, if_neg hquote, if_neg hslash, if_neg hspace,
      h n rest (by simpa using hn), Option.map_some]

theorem Encodes.escape {body cs esc : List Char} (h : Encodes body cs) {c : Char}
    (hesc : ∀ rest, escape (esc ++ rest) = some (c, rest)) :
    Encodes ('\\' :: esc ++ body) (c :: cs) := by
  intro n rest hn
  cases n with
  | zero => omega
  | succ n =>
    have hlen : body.length < n := by
      simp at hn
      omega
    rw [List.cons_append, List.cons_append, List.append_assoc, stringBody, if_neg (by decide),
      if_pos rfl, hesc, Option.bind_some]
    simp only [h n rest hlen, Option.map_some]

theorem encodes_self {cs : List Char} (h : ∀ c ∈ cs, c ≠ '"' ∧ c ≠ '\\' ∧ ¬ c < ' ') :
    Encodes cs cs := by
  induction cs with
  | nil => exact encodes_nil
  | cons c cs ih =>
    obtain ⟨hquote, hslash, hspace⟩ := h c List.mem_cons_self
    exact (ih fun d hd => h d (List.mem_cons_of_mem c hd)).plain hquote hslash hspace

theorem hexDigit_digitChar {k : ℕ} (h : k < 16) : hexDigit k.digitChar = some k := by
  interval_cases k <;> decide

theorem escape_u00 {hi lo : ℕ} (hhi : hi < 16) (hlo : lo < 16) (rest : List Char) :
    escape ('u' :: '0' :: '0' :: hi.digitChar :: lo.digitChar :: rest) =
      some (Char.ofNat (16 * hi + lo), rest) := by
  have hzero : hexDigit '0' = some 0 := rfl
  have hlt : 16 * hi + lo < 0xD800 := by omega
  simp [escape, hex4, hzero, hexDigit_digitChar hhi, hexDigit_digitChar hlo, unicode, hlt]

/-- The text of a scalar value, which a comma or a closing brace ends. -/
def Reads (text : List Char) (v : Value) : Prop :=
  ∀ n c rest, c = ',' ∨ c = '\x7d' → value (n + 1) (text ++ c :: rest) = some (v, c :: rest)

theorem Encodes.value_eq {body cs : List Char} (h : Encodes body cs) (n : ℕ) (rest : List Char) :
    value (n + 1) ('"' :: body ++ '"' :: rest) = some (.string (String.ofList cs), rest) := by
  have hbody := h (body ++ '"' :: rest).length rest (by simp)
  have hskip : skipSpace ('"' :: (body ++ '"' :: rest)) = '"' :: (body ++ '"' :: rest) := rfl
  rw [List.cons_append, value, hskip]
  simp only [hbody, Option.map_some]

theorem Encodes.reads {body cs : List Char} (h : Encodes body cs) :
    Reads ('"' :: body ++ ['"']) (.string (String.ofList cs)) := by
  intro n c rest _
  rw [List.append_assoc, List.singleton_append]
  exact h.value_eq n (c :: rest)

theorem Encodes.parse_eq {body cs : List Char} (h : Encodes body cs) :
    parse ('"' :: body ++ ['"']) = some (.string (String.ofList cs)) := by
  rw [parse, h.value_eq, Option.bind_some]
  rfl

theorem eq_zero_of_head_toDigits {n : ℕ} (h : (Nat.toDigits 10 n).head? = some '0') : n = 0 := by
  induction n using Nat.strong_induction_on with
  | _ n ih =>
    rw [Nat.toDigits_eq_if (by decide)] at h
    split_ifs at h with hlt
    · simpa using h
    · -- the head of a longer numeral is that of its quotient by ten
      rw [List.head?_append_of_ne_nil _ Nat.toDigits_ne_nil] at h
      have hzero := ih (n / 10) (by omega) h
      omega

theorem spanDigits_append {ds : List Char} (h : ∀ c ∈ ds, c.isDigit = true) {c : Char}
    (hc : c.isDigit = false) (rest : List Char) :
    spanDigits (ds ++ c :: rest) = (ds, c :: rest) := by
  rw [spanDigits, List.takeWhile_append_of_pos h, List.dropWhile_append_of_pos h]
  simp [hc]

theorem unsigned_toDigits (n : ℕ) {c : Char} (hc : c = ',' ∨ c = '\x7d') (rest : List Char) :
    unsigned false (Nat.toDigits 10 n ++ c :: rest) = some (.ofNat n, c :: rest) := by
  have hdigits : ∀ d ∈ Nat.toDigits 10 n, d.isDigit = true := fun d hd =>
    Nat.isDigit_of_mem_toDigits (by decide) (by decide) hd
  have hspan : spanDigits (Nat.toDigits 10 n ++ c :: rest) = (Nat.toDigits 10 n, c :: rest) := by
    apply spanDigits_append hdigits
    rcases hc with rfl | rfl <;> decide
  have hzero : (Nat.toDigits 10 n).head? = some '0' → (Nat.toDigits 10 n).length ≤ 1 := by
    intro hhead
    rw [eq_zero_of_head_toDigits hhead, Nat.toDigits_zero]
    rfl
  have hfraction : fraction (c :: rest) = some ([], c :: rest) := by
    rcases hc with rfl | rfl <;> rfl
  have hexponent : exponent (c :: rest) = some (0, c :: rest) := by
    rcases hc with rfl | rfl <;> simp [exponent]
  simp [unsigned, hspan, hfraction, hexponent, Value.ofNat, Nat.ofDigitChars_ten_toDigits]
  exact hzero

theorem value_digit {d : Char} (hd : d.isDigit = true) (n : ℕ) (cs : List Char) :
    value (n + 1) (d :: cs) = unsigned false (d :: cs) := by
  have hspace : isSpace d = false := by
    by_contra h
    simp only [isSpace, Bool.not_eq_false, Bool.or_eq_true, beq_iff_eq] at h
    rcases h with ((rfl | rfl) | rfl) | rfl <;> exact absurd hd (by decide)
  have hskip : skipSpace (d :: cs) = d :: cs := by simp [skipSpace, hspace]
  -- no other value begins with a digit
  have hne : ∀ c : Char, c.isDigit = false → d ≠ c := by
    rintro c hc rfl
    rw [hd] at hc
    cases hc
  rw [value, hskip]
  simp [hne, number]

/-- Decimal numbers. -/
theorem reads_toDigits (n : ℕ) : Reads (Nat.toDigits 10 n) (.ofNat n) := by
  intro fuel c rest hc
  have hdigits : ∀ d ∈ Nat.toDigits 10 n, d.isDigit = true := fun d hd =>
    Nat.isDigit_of_mem_toDigits (by decide) (by decide) hd
  rw [← unsigned_toDigits n hc rest]
  cases hds : Nat.toDigits 10 n with
  | nil => exact absurd hds Nat.toDigits_ne_nil
  | cons d ds => exact value_digit (hdigits d (hds ▸ List.mem_cons_self)) fuel _

def memberText (key text : List Char) : List Char := '"' :: key ++ '"' :: ':' :: text

/-- The members `ms` as far as the closing brace, with a comma between each two. -/
inductive MembersText : List Char → List (String × Value) → Prop where
  | last {key k text : List Char} {v : Value} (hkey : Encodes key k) (hv : Reads text v) :
    MembersText (memberText key text ++ ['\x7d']) [(String.ofList k, v)]
  | cons {key k text cs : List Char} {v : Value} {ms : List (String × Value)}
    (hkey : Encodes key k) (hv : Reads text v) (h : MembersText cs ms) :
    MembersText (memberText key text ++ ',' :: cs) ((String.ofList k, v) :: ms)

theorem members_memberText {key k text : List Char} {v : Value} (hkey : Encodes key k)
    (hv : Reads text v) (n : ℕ) {c : Char} (hc : c = ',' ∨ c = '\x7d') (rest : List Char) :
    members (n + 2) (memberText key text ++ c :: rest) =
      if c = ',' then (members (n + 1) rest).map fun (ms, cs) => ((String.ofList k, v) :: ms, cs)
      else some ([(String.ofList k, v)], rest) := by
  have hkey := hkey (key ++ '"' :: ':' :: (text ++ c :: rest)).length (':' :: (text ++ c :: rest))
    (by simp)
  have hquote (cs : List Char) : skipSpace ('"' :: cs) = '"' :: cs := rfl
  have hcolon (cs : List Char) : skipSpace (':' :: cs) = ':' :: cs := rfl
  have hend : skipSpace (c :: rest) = c :: rest := by
    rcases hc with rfl | rfl <;> rfl
  simp only [memberText, List.cons_append, List.append_assoc]
  rw [members, hquote]
  simp only [hkey, Option.bind_eq_bind, Option.bind_some, hcolon, hv n c rest hc, hend]
  rcases hc with rfl | rfl
  · cases hms : members (n + 1) rest <;> simp [hms]
  · rfl

theorem MembersText.members_eq {cs : List Char} {ms : List (String × Value)}
    (h : MembersText cs ms) {n : ℕ} (hn : ms.length < n) (rest : List Char) :
    members n (cs ++ rest) = some (ms, rest) := by
  induction h generalizing n with
  | last hkey hv =>
    obtain ⟨n, rfl⟩ : ∃ k, n = k + 2 := ⟨n - 2, by simp at hn; omega⟩
    rw [List.append_assoc, List.singleton_append, members_memberText hkey hv n (.inr rfl),
      if_neg (by decide)]
  | cons hkey hv _ ih =>
    obtain ⟨n, rfl⟩ : ∃ k, n = k + 2 := ⟨n - 2, by simp at hn; omega⟩
    rw [List.append_assoc, List.cons_append, members_memberText hkey hv n (.inl rfl),
      if_pos rfl, ih (by simpa using hn), Option.map_some]

theorem MembersText.length_lt {cs : List Char} {ms : List (String × Value)}
    (h : MembersText cs ms) : (∃ rest, cs = '"' :: rest) ∧ ms.length < cs.length := by
  induction h with
  | last => exact ⟨⟨_, rfl⟩, by simp [memberText]⟩
  | cons _ _ _ ih =>
    refine ⟨⟨_, rfl⟩, ?_⟩
    have hlt := ih.2
    simp [memberText]
    omega

theorem MembersText.value_eq {cs : List Char} {ms : List (String × Value)}
    (h : MembersText cs ms) {n : ℕ} (hn : ms.length < n) (rest : List Char) :
    value (n + 1) ('\x7b' :: cs ++ rest) = some (.object ms, rest) := by
  have hmembers := h.members_eq hn rest
  obtain ⟨⟨body, rfl⟩, -⟩ := h.length_lt
  have hbrace (cs : List Char) : skipSpace ('\x7b' :: cs) = '\x7b' :: cs := rfl
  have hquote (cs : List Char) : skipSpace ('"' :: cs) = '"' :: cs := rfl
  rw [List.cons_append, value, hbrace]
  rw [List.cons_append] at hmembers ⊢
  simp [hquote, hmembers]

/-- An object is read back from its text, whatever white space follows it. -/
theorem MembersText.parse_eq {cs : List Char} {ms : List (String × Value)}
    (h : MembersText cs ms) {space : List Char} (hspace : ∀ c ∈ space, isSpace c = true) :
    parse ('\x7b' :: cs ++ space) = some (.object ms) := by
  have hlt := h.length_lt.2
  have hrest : skipSpace space = [] := List.dropWhile_eq_nil_iff.mpr hspace
  rw [parse, h.value_eq (by simp; omega), Option.bind_some]
  exact if_pos hrest

end Json
