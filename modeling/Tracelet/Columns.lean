import Mathlib.Data.List.DropRight

namespace Columns

theorem takeWhile_append_stop {p : Char → Bool} {cs rest : List Char} (hcs : ∀ c ∈ cs, p c = true)
    (hrest : ∀ c ∈ rest.head?, p c = false) : (cs ++ rest).takeWhile p = cs := by
  rw [List.takeWhile_append_of_pos hcs]
  cases rest with
  | nil => exact List.append_nil cs
  | cons c rest =>
    have hc : ¬ p c = true := Bool.eq_false_iff.mp (hrest c rfl)
    rw [List.takeWhile_cons, if_neg hc, List.append_nil]

theorem dropWhile_append_stop {p : Char → Bool} {cs rest : List Char} (hcs : ∀ c ∈ cs, p c = true)
    (hrest : ∀ c ∈ rest.head?, p c = false) : (cs ++ rest).dropWhile p = rest := by
  rw [List.dropWhile_append_of_pos hcs]
  cases rest with
  | nil => rfl
  | cons c rest =>
    have hc : ¬ p c = true := Bool.eq_false_iff.mp (hrest c rfl)
    rw [List.dropWhile_cons, if_neg hc]

theorem mem_head_blanks_append {n : ℕ} {rest : List Char} {c : Char}
    (h : c ∈ (List.replicate n ' ' ++ rest).head?) : c = ' ' ∨ c ∈ rest.head? := by
  cases n with
  | zero => exact .inr h
  | succ n =>
    rw [List.replicate_succ, List.cons_append, List.head?_cons] at h
    exact .inl (Option.some.inj h).symm

/-- A token holds no blank and may be longer than its column. Other text may hold
blanks, but it fits. -/
inductive Column where
  | token (width : ℕ)
  | fixed (width : ℕ)

def Column.width : Column → ℕ
  | token width | fixed width => width

def Column.Fits : Column → List Char → Prop
  | token _, cs => ' ' ∉ cs
  | fixed width, cs => cs.length ≤ width

/-- A text, the blanks up to the width of its column, and one more. -/
def pad (width : ℕ) (cs : List Char) : List Char := List.rightpad width ' ' cs ++ [' ']

/-- Text without the blanks at its end. -/
def trimEnd (cs : List Char) : List Char := cs.rdropWhile (· == ' ')

/-- The text of the first column, and the rest of the row. -/
def Column.read : Column → List Char → List Char × List Char
  | token width, cs =>
    let text := cs.takeWhile (· != ' ')
    (text, cs.drop (max width text.length + 1))
  | fixed width, cs => (trimEnd (cs.take width), cs.drop (width + 1))

theorem length_rightpad_blank (width : ℕ) (cs : List Char) :
    (List.rightpad width ' ' cs).length = max width cs.length := by
  rw [List.rightpad, List.length_append, List.length_replicate]
  omega

theorem drop_pad (width : ℕ) (cs rest : List Char) :
    (pad width cs ++ rest).drop (max width cs.length + 1) = rest := by
  rw [← length_rightpad_blank, pad]
  exact List.drop_left' (by rw [List.length_append, List.length_singleton])

theorem trimEnd_append_blanks (cs : List Char) (n : ℕ) :
    trimEnd (cs ++ List.replicate n ' ') = trimEnd cs := by
  induction n with
  | zero => rw [List.replicate_zero, List.append_nil]
  | succ n ih =>
    rw [List.replicate_succ', ← List.append_assoc, trimEnd,
      List.rdropWhile_concat_pos _ _ _ (by simp)]
    exact ih

theorem trimEnd_of_notMem {cs : List Char} (h : ' ' ∉ cs) : trimEnd cs = cs := by
  apply List.rdropWhile_eq_self_iff.mpr
  intro hne hlast
  have hblank : cs.getLast hne = ' ' := by simpa using hlast
  exact h (hblank ▸ List.getLast_mem hne)

theorem takeWhile_pad {cs : List Char} (h : ' ' ∉ cs) (width : ℕ) (rest : List Char) :
    (pad width cs ++ rest).takeWhile (· != ' ') = cs := by
  rw [pad, List.rightpad, List.append_assoc, List.append_assoc]
  apply takeWhile_append_stop
  · intro c hc
    exact bne_iff_ne.mpr fun heq => h (heq ▸ hc)
  · intro c hc
    obtain rfl | hc := mem_head_blanks_append hc
    · rfl
    · obtain rfl := Option.some.inj hc
      rfl

theorem Column.read_pad {c : Column} {cs : List Char} (h : c.Fits cs) (rest : List Char) :
    c.read (pad c.width cs ++ rest) = (trimEnd cs, rest) := by
  cases c with
  | token width =>
    simp only [Column.read, Column.width, takeWhile_pad h, drop_pad, trimEnd_of_notMem h]
  | fixed width =>
    have hmax : max width cs.length = width := max_eq_left h
    have hlen := length_rightpad_blank width cs
    have hdrop := drop_pad width cs rest
    have htake : (pad width cs ++ rest).take width = List.rightpad width ' ' cs := by
      rw [pad, List.append_assoc]
      exact List.take_left' (hlen.trans hmax)
    rw [hmax] at hdrop
    simp only [Column.read, Column.width, hdrop, htake, List.rightpad, trimEnd_append_blanks]

def readRow : List Column → List Char → List (List Char) × List Char
  | [], cs => ([], cs)
  | c :: columns, cs =>
    let (text, rest) := c.read cs
    let (texts, last) := readRow columns rest
    (text :: texts, last)

theorem readRow_pad {row : List (Column × List Char)} (h : ∀ p ∈ row, p.1.Fits p.2)
    (last : List Char) :
    readRow (row.map Prod.fst) (row.flatMap (fun p => pad p.1.width p.2) ++ last) =
      (row.map fun p => trimEnd p.2, last) := by
  induction row with
  | nil => rfl
  | cons p row ih =>
    have hrest := ih fun q hq => h q (List.mem_cons_of_mem p hq)
    rw [List.flatMap_cons, List.append_assoc]
    simp only [List.map_cons, readRow, Column.read_pad (h p List.mem_cons_self), hrest]

/-- The lines of a text, each with its newline. What stands behind the last newline
is not a line. -/
def lines (cs : List Char) : List (List Char) := (cs.splitOn '\n').dropLast.map (· ++ ['\n'])

theorem lines_nil : lines [] = [] := rfl

theorem lines_append {body : List Char} (h : '\n' ∉ body) (rest : List Char) :
    lines (body ++ ['\n'] ++ rest) = (body ++ ['\n']) :: lines rest := by
  rw [lines, List.append_assoc, List.singleton_append, List.splitOn_append_cons_self_of_not_mem h,
    List.dropLast_cons_of_ne_nil (List.splitOn_ne_nil _ _), List.map_cons, lines]

theorem lines_flatten {ls : List (List Char)}
    (h : ∀ l ∈ ls, ∃ body, l = body ++ ['\n'] ∧ '\n' ∉ body) :
    lines ls.flatten = ls := by
  induction ls with
  | nil => exact lines_nil
  | cons l ls ih =>
    obtain ⟨body, rfl, hbody⟩ := h l List.mem_cons_self
    rw [List.flatten_cons, lines_append hbody, ih fun l' hl' => h l' (List.mem_cons_of_mem _ hl')]

/-- A label and a number with the blanks up to its width. A longer number touches the
label behind it. -/
structure Labelled where
  label : List Char
  width : ℕ
  digits : List Char

def Labelled.text (l : Labelled) : List Char := l.label ++ List.rightpad l.width ' ' l.digits

/-- No label begins with a digit or a blank. -/
structure Labelled.Fits (l : Labelled) : Prop where
  label_ne_nil : l.label ≠ []
  head : ∀ c ∈ l.label.head?, c.isDigit = false ∧ c ≠ ' '
  digits : ∀ c ∈ l.digits, c.isDigit = true

/-- The digits behind each label. -/
def readLabelled : List (List Char) → List Char → List (List Char)
  | [], _ => []
  | label :: labels, cs =>
    let behind := cs.drop label.length
    behind.takeWhile Char.isDigit ::
      readLabelled labels ((behind.dropWhile Char.isDigit).dropWhile (· == ' '))

theorem not_isDigit_head {n : ℕ} {rest : List Char}
    (hrest : ∀ c ∈ rest.head?, c.isDigit = false ∧ c ≠ ' ') :
    ∀ c ∈ (List.replicate n ' ' ++ rest).head?, c.isDigit = false := by
  intro c hc
  obtain rfl | hc := mem_head_blanks_append hc
  · rfl
  · exact (hrest c hc).1

theorem readLabelled_text {row : List Labelled} (h : ∀ l ∈ row, l.Fits) :
    readLabelled (row.map Labelled.label) (row.flatMap Labelled.text) =
      row.map Labelled.digits := by
  induction row with
  | nil => rfl
  | cons l row ih =>
    obtain ⟨-, -, hdigits⟩ := h l List.mem_cons_self
    have hrow : ∀ m ∈ row, m.Fits := fun m hm => h m (List.mem_cons_of_mem l hm)
    -- what follows the blanks is the next label, or the end of the line
    have hnext : ∀ c ∈ (row.flatMap Labelled.text).head?, c.isDigit = false ∧ c ≠ ' ' := by
      cases row with
      | nil => exact fun c hc => (by cases hc)
      | cons m row =>
        obtain ⟨hne, hhead, -⟩ := hrow m List.mem_cons_self
        rwa [List.flatMap_cons, Labelled.text, List.append_assoc, List.head?_append_of_ne_nil _ hne]
    have hblanks : ∀ c ∈ List.replicate (l.width - l.digits.length) ' ', (c == ' ') = true :=
      fun c hc => beq_iff_eq.mpr (List.eq_of_mem_replicate hc)
    have hbehind : (((l :: row).flatMap Labelled.text).drop l.label.length) =
        l.digits ++
          (List.replicate (l.width - l.digits.length) ' ' ++ row.flatMap Labelled.text) := by
      rw [List.flatMap_cons, Labelled.text, List.append_assoc, List.drop_left, List.rightpad,
        List.append_assoc]
    simp only [List.map_cons, readLabelled, hbehind]
    rw [takeWhile_append_stop hdigits (not_isDigit_head hnext),
      dropWhile_append_stop hdigits (not_isDigit_head hnext),
      dropWhile_append_stop hblanks fun c hc => beq_false_of_ne (hnext c hc).2, ih hrow]

/-- The text behind the blanks, up to the next one. -/
def readRight (cs : List Char) : List Char := (cs.dropWhile (· == ' ')).takeWhile (· != ' ')

theorem readRight_leftpad {cs rest : List Char} (h : ' ' ∉ cs) (hrest : ∀ c ∈ rest.head?, c = ' ')
    (width : ℕ) (hne : cs ≠ []) : readRight (List.leftpad width ' ' cs ++ rest) = cs := by
  have hblanks : ∀ c ∈ List.replicate (width - cs.length) ' ', (c == ' ') = true :=
    fun c hc => beq_iff_eq.mpr (List.eq_of_mem_replicate hc)
  have hcs : ∀ c ∈ cs, (c != ' ') = true := fun c hc => bne_iff_ne.mpr fun heq => h (heq ▸ hc)
  rw [readRight, List.leftpad, List.append_assoc, dropWhile_append_stop hblanks,
    takeWhile_append_stop hcs]
  · exact fun c hc => by rw [hrest c hc]; rfl
  · intro c hc
    rw [List.head?_append_of_ne_nil _ hne] at hc
    exact beq_false_of_ne fun heq => h (heq ▸ List.mem_of_mem_head? hc)

def tokens (cs : List Char) : List (List Char) := (cs.splitOn ' ').filter (· ≠ [])

/-- A text without blanks, and not empty. -/
def Token (cs : List Char) : Prop := cs ≠ [] ∧ ' ' ∉ cs

theorem tokens_append {cs : List Char} (h : Token cs) (rest : List Char) :
    tokens (cs ++ ' ' :: rest) = cs :: tokens rest := by
  rw [tokens, List.splitOn_append_cons_self_of_not_mem h.2, List.filter_cons,
    if_pos (by simpa using h.1), tokens]

theorem tokens_blank (rest : List Char) : tokens (' ' :: rest) = tokens rest := by
  have hsplit : (' ' :: rest).splitOn ' ' = [] :: rest.splitOn ' ' :=
    List.splitOn_append_cons_self_of_not_mem (a := ' ') List.not_mem_nil rest
  rw [tokens, hsplit, List.filter_cons, if_neg (by simp), tokens]

theorem tokens_blanks (n : ℕ) (rest : List Char) :
    tokens (List.replicate n ' ' ++ rest) = tokens rest := by
  induction n with
  | zero => rfl
  | succ n ih => rw [List.replicate_succ, List.cons_append, tokens_blank, ih]

theorem tokens_pad {cs : List Char} (h : Token cs) (width : ℕ) (rest : List Char) :
    tokens (pad width cs ++ rest) = cs :: tokens rest := by
  have hpad : pad width cs ++ rest = cs ++
      ' ' :: (List.replicate (width - cs.length) ' ' ++ rest) := by
    rw [pad, List.rightpad, List.append_assoc, List.append_assoc,
      ← List.append_assoc (List.replicate _ _), ← List.replicate_succ', List.replicate_succ,
      List.cons_append]
  rw [hpad, tokens_append h, tokens_blanks]

theorem tokens_leftpad_append {cs : List Char} (h : Token cs) (width : ℕ) (rest : List Char) :
    tokens (List.leftpad width ' ' cs ++ ' ' :: rest) = cs :: tokens rest := by
  rw [List.leftpad, List.append_assoc, tokens_blanks, tokens_append h]

theorem tokens_of_token {cs : List Char} (h : Token cs) : tokens cs = [cs] := by
  rw [tokens, List.splitOn_eq_singleton h.2]
  simpa using h.1

theorem tokens_leftpad {cs : List Char} (h : Token cs) (width : ℕ) :
    tokens (List.leftpad width ' ' cs) = [cs] := by
  rw [List.leftpad, tokens_blanks, tokens_of_token h]

def pairs {α : Type*} : List α → List (α × α)
  | a :: b :: rest => (a, b) :: pairs rest
  | _ => []

theorem pairs_tokens_intercalate {items : List (List Char × List Char)}
    (h : ∀ p ∈ items, Token p.1 ∧ Token p.2) :
    pairs (tokens ([' ', ' '].intercalate (items.map fun p => p.1 ++ ' ' :: p.2))) = items := by
  induction items with
  | nil => rfl
  | cons p items ih =>
    obtain ⟨hname, hcount⟩ := h p List.mem_cons_self
    cases items with
    | nil =>
      rw [List.map_singleton, List.intercalate_singleton, tokens_append hname,
        tokens_of_token hcount]
      rfl
    | cons q items =>
      -- the first of the two blanks ends the count, the second one is an empty word
      have hrest := ih fun r hr => h r (List.mem_cons_of_mem p hr)
      rw [List.map_cons] at hrest
      rw [List.map_cons, List.map_cons, List.intercalate_cons_cons, List.append_assoc,
        List.append_assoc, List.cons_append, tokens_append hname, List.cons_append,
        List.cons_append, List.nil_append,
        tokens_append hcount, tokens_blank, pairs, hrest]

def readJoined (cs : List Char) : List (List Char) :=
  (cs.splitOn ',').map (List.dropWhile (· == ' '))

theorem dropWhile_blank_of_notMem {cs : List Char} (h : ' ' ∉ cs) :
    cs.dropWhile (· == ' ') = cs := by
  apply dropWhile_append_stop (List.forall_mem_nil _)
  intro c hc
  exact beq_false_of_ne fun heq => h (heq ▸ List.mem_of_mem_head? hc)

theorem readJoined_blank (cs : List Char) : readJoined (' ' :: cs) = readJoined cs := by
  have hsplit : (' ' :: cs).splitOn ',' = (cs.splitOn ',').modifyHead (List.cons ' ') := by
    rw [List.splitOn_cons_eq_if_modifyHead, if_neg (by decide)]
  rw [readJoined, hsplit, readJoined]
  cases cs.splitOn ',' with
  | nil => rfl
  | cons name names => rfl

theorem readJoined_intercalate {names : List (List Char)} (hne : names ≠ [])
    (h : ∀ name ∈ names, ',' ∉ name ∧ ' ' ∉ name) :
    readJoined ([',', ' '].intercalate names) = names := by
  induction names with
  | nil => exact absurd rfl hne
  | cons name names ih =>
    obtain ⟨hcomma, hblank⟩ := h name List.mem_cons_self
    cases names with
    | nil =>
      rw [List.intercalate_singleton, readJoined, List.splitOn_eq_singleton hcomma,
        List.map_singleton, dropWhile_blank_of_notMem hblank]
    | cons next names =>
      have hrest := ih (List.cons_ne_nil _ _) fun n hn => h n (List.mem_cons_of_mem _ hn)
      rw [List.intercalate_cons_cons, List.append_assoc, List.cons_append, List.cons_append,
        List.nil_append, readJoined, List.splitOn_append_cons_self_of_not_mem hcomma, List.map_cons,
        dropWhile_blank_of_notMem hblank, ← readJoined, readJoined_blank, hrest]

end Columns
