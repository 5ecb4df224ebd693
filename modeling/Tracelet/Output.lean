import Tracelet.Json
import Tracelet.Clock
import Tracelet.Summary

namespace Tracelet
open ByteMemory RustText TransitionRun

namespace Output

def escapeByte (b : UInt8) : List Char :=
  if b = 0x5c then ['\\', '\\']
  else if b = 0x22 then ['\\', '"']
  else if b = 0x0a then ['\\', 'n']
  else if b = 0x0d then ['\\', 'r']
  else if b = 0x09 then ['\\', 't']
  else if 0x20 ≤ b ∧ b ≤ 0x7e then [Char.ofNat b.toNat]
  else '\\' :: 'u' :: '0' :: '0' :: List.leftpad 2 '0' (Nat.toDigits 16 b.toNat)

def jsonEscapeString (s : String) : List Char := '"' :: (asBytes s).flatMap escapeByte ++ ['"']

example : jsonEscapeString "a\"b\\c" = "\"a\\\"b\\\\c\"".toList := by decide

inductive Field where
  | text (s : String)
  | number (n : UInt32)

def Field.write : Field → List Char
  | text s => jsonEscapeString s
  | number n => (toString n.toNat).toList

def writeMember (member : String × Field) : List Char :=
  ",\"".toList ++ member.1.toList ++ "\":".toList ++ member.2.write

/-- The shape of the three lines: the event's name, and the fields in order. -/
def jsonLine (event : String) (fields : List (String × Field)) : List Char :=
  "\x7b\"event\":\"".toList ++ event.toList ++ '"' :: fields.flatMap writeMember ++
    "\x7d\n".toList

def execJsonLine (time : String) (pid ppid : UInt32) (comm filename : String) : List Char :=
  jsonLine "exec" [("time", .text time), ("pid", .number pid), ("ppid", .number ppid),
    ("comm", .text comm), ("filename", .text filename)]

def openJsonLine (time : String) (pid : UInt32) (comm filename : String) : List Char :=
  jsonLine "open" [("time", .text time), ("pid", .number pid), ("comm", .text comm),
    ("filename", .text filename)]

def tcpJsonLine (time : String) (pid : UInt32) (comm event source destination : String) :
    List Char :=
  jsonLine "tcp" [("time", .text time), ("pid", .number pid), ("comm", .text comm),
    ("tcp_event", .text event), ("source", .text source), ("destination", .text destination)]

end Output

inductive OutputFormat where
  | text | json
  deriving DecidableEq

/-- `println!` of columns `{:<w}` with a blank between them, and a last `{}`. -/
def printRow (columns : List (ℕ × String)) (last : String) : List Char :=
  columns.flatMap (fun (w, s) => List.rightpad w ' ' s.toList ++ [' ']) ++ last.toList ++ ['\n']

open Events Output

def execLine (format : OutputFormat) (bootOffsetNs : UInt64) (ev : ExecEvent) : List Char :=
  let time := wallTime ev.ktimeNs bootOffsetNs
  let comm := strOf ev.comm.toList
  let filename := strOf ev.filename.toList
  match format with
  | .text =>
    printRow [(12, time), (7, toString ev.pid.toNat), (7, toString ev.ppid.toNat), (16, comm)]
      filename
  | .json => execJsonLine time ev.pid ev.ppid comm filename

def openLine (format : OutputFormat) (bootOffsetNs : UInt64) (ev : OpenEvent) : List Char :=
  let time := wallTime ev.ktimeNs bootOffsetNs
  let comm := strOf ev.comm.toList
  let filename := strOf ev.filename.toList
  match format with
  | .text => printRow [(12, time), (7, toString ev.pid.toNat), (16, comm)] filename
  | .json => openJsonLine time ev.pid comm filename

def tcpLine (format : OutputFormat) (bootOffsetNs : UInt64) (ev : TcpEvent) : List Char :=
  let time := wallTime ev.ktimeNs bootOffsetNs
  let comm := strOf ev.comm.toList
  match format with
  | .text =>
    printRow [(12, time), (16, comm), (7, toString ev.pid.toNat), (9, ev.eventName)] ev.destination
  | .json => tcpJsonLine time ev.pid comm ev.eventName ev.source ev.destination

namespace EventLoop

/-- What the callback prints for a record, if it decodes it. -/
def Command.line (format : OutputFormat) (bootOffsetNs : UInt64) :
    Command → List UInt8 → Option (List Char)
  | exec, data => (decodeExec data).map (execLine format bootOffsetNs)
  | fileOpen, data => (decodeOpen data).map (openLine format bootOffsetNs)
  | tcp, data => (decodeTcp data).map (tcpLine format bootOffsetNs)

def Command.header : Command → OutputFormat → List Char
  | _, .json => []
  | exec, .text => "TIME         PID     PPID    PROCESS          COMMAND\n".toList
  | fileOpen, .text => "TIME         PID     PROCESS          PATH\n".toList
  | tcp, .text => "TIME         PROCESS          PID     EVENT     DESTINATION\n".toList

def written (cmd : Command) (format : OutputFormat) (bootOffsetNs : UInt64) (s : State) :
    Event → List Char
  | .deliver =>
    match s.maps.events with
    | [] => []
    | record :: _ => if !s.running then [] else (cmd.line format bootOffsetNs record).getD []
  | _ => []

def stdout (cmd : Command) (count : Option UInt64) (format : OutputFormat) (bootOffsetNs : UInt64)
    (s : State) (es : List Event) : List Char :=
  cmd.header format ++ outputs (step cmd count) (written cmd format bootOffsetNs) s es

end EventLoop

def IsLine (cs : List Char) : Prop := ∃ body, cs = body ++ ['\n'] ∧ '\n' ∉ body

/-- A line of text, and the object it is read as. -/
structure IsJsonLine (cs : List Char) (members : List (String × Json.Value)) : Prop where
  line : IsLine cs
  object : Json.parse cs = some (.object members)

theorem isLine_of_plain {body : List Char} (h : Plain body) : IsLine (body ++ ['\n']) :=
  ⟨body, rfl, h.newline_notMem⟩

theorem IsLine.count {cs : List Char} (h : IsLine cs) : cs.count '\n' = 1 := by
  obtain ⟨body, rfl, hbody⟩ := h
  simp [List.count_eq_zero_of_not_mem hbody]

theorem isLine_printRow {columns : List (ℕ × String)} {last : String}
    (h : ∀ c ∈ columns, Plain c.2.toList) (hlast : Plain last.toList) :
    IsLine (printRow columns last) := by
  apply isLine_of_plain
  rw [plain_append]
  refine ⟨plain_flatMap fun c hc => ?_, hlast⟩
  simp only [List.rightpad, plain_append]
  refine ⟨⟨h c hc, fun d hd => ?_⟩, by simp⟩
  rw [List.eq_of_mem_replicate hd]
  decide

namespace Output

/-- The two digits of `{b:02x}`. -/
theorem leftpad_toDigits_sixteen {n : ℕ} (h : n < 256) :
    List.leftpad 2 '0' (Nat.toDigits 16 n) = [(n / 16).digitChar, (n % 16).digitChar] := by
  rw [Nat.toDigits_eq_if (by decide)]
  split_ifs with hlt
  · rw [Nat.div_eq_of_lt hlt, Nat.mod_eq_of_lt hlt]
    rfl
  · rw [Nat.toDigits_of_lt_base (show n / 16 < 16 by omega)]
    rfl

theorem toNat_char (b : UInt8) : (Char.ofNat b.toNat).toNat = b.toNat := by
  have hlt := b.toNat_lt
  have hvalid : b.toNat.isValidChar := Or.inl (by omega)
  rw [Char.toNat_ofNat, if_pos hvalid]

theorem char_ne {b b' : UInt8} (h : b ≠ b') : Char.ofNat b.toNat ≠ Char.ofNat b'.toNat := by
  intro heq
  have hnat := congrArg Char.toNat heq
  rw [toNat_char, toNat_char] at hnat
  exact h (UInt8.toNat_inj.mp hnat)

/-- Each byte is read back as the character with its number. -/
theorem encodes_escapeByte {body cs : List Char} (h : Json.Encodes body cs) (b : UInt8) :
    Json.Encodes (escapeByte b ++ body) (Char.ofNat b.toNat :: cs) := by
  unfold escapeByte
  split_ifs with hslash hquote hn hr ht hplain
  · exact hslash ▸ h.escape fun rest => rfl
  · exact hquote ▸ h.escape fun rest => rfl
  · exact hn ▸ h.escape fun rest => rfl
  · exact hr ▸ h.escape fun rest => rfl
  · exact ht ▸ h.escape fun rest => rfl
  · have hspace : ¬ Char.ofNat b.toNat < ' ' := by
      have hle := UInt8.le_iff_toNat_le.mp hplain.1
      rw [Char.lt_def, UInt32.lt_iff_toNat_lt]
      change ¬ (Char.ofNat b.toNat).toNat < 32
      rw [toNat_char]
      exact Nat.not_lt.mpr hle
    exact h.plain (char_ne hquote) (char_ne hslash) hspace
  · have hlt := b.toNat_lt
    -- everything else is written as four hex digits
    have hescape (rest : List Char) : Json.escape
        (['u', '0', '0', (b.toNat / 16).digitChar, (b.toNat % 16).digitChar] ++ rest) =
          some (Char.ofNat b.toNat, rest) := by
      have h00 := Json.escape_u00 (show b.toNat / 16 < 16 by omega)
        (show b.toNat % 16 < 16 by omega) rest
      rwa [Nat.div_add_mod] at h00
    rw [leftpad_toDigits_sixteen hlt]
    exact h.escape hescape

theorem plain_escapeByte (b : UInt8) : Plain (escapeByte b) := by
  unfold escapeByte
  split_ifs with hslash hquote hn hr ht hplain
  · simp
  · simp
  · simp
  · simp
  · simp
  · have h1 := UInt8.le_iff_toNat_le.mp hplain.1
    have h2 := UInt8.le_iff_toNat_le.mp hplain.2
    simpa [toNat_char] using ⟨h1, Nat.lt_succ_of_le h2⟩
  · have hpad := plain_leftpad (plain_toDigits (by decide) (le_refl 16) b.toNat) 2
    simpa using hpad

theorem encodes_flatMap_escapeByte (bs : List UInt8) :
    Json.Encodes (bs.flatMap escapeByte) (bs.map fun b => Char.ofNat b.toNat) := by
  induction bs with
  | nil => exact Json.encodes_nil
  | cons b bs ih => exact encodes_escapeByte ih b

theorem reads_jsonEscapeString {s : String} (h : Plain s.toList) :
    Json.Reads (jsonEscapeString s) (.string s) := by
  have hreads := (encodes_flatMap_escapeByte (asBytes s)).reads
  have hself : charPerByte s = s := charPerByte_eq_self_iff.mpr h.ascii
  rwa [← charPerByte, hself] at hreads

theorem plain_jsonEscapeString (s : String) : Plain (jsonEscapeString s) := by
  have hbody : Plain ((asBytes s).flatMap escapeByte) := plain_flatMap fun b _ => plain_escapeByte b
  simpa [jsonEscapeString] using hbody

def Field.value : Field → Json.Value
  | text s => .string s
  | number n => .ofNat n.toNat

def Field.Plain : Field → Prop
  | text s => RustText.Plain s.toList
  | number _ => True

theorem Field.reads {field : Field} (h : field.Plain) : Json.Reads field.write field.value := by
  cases field with
  | text s => exact reads_jsonEscapeString h
  | number n =>
    rw [Field.write, toList_toString]
    exact Json.reads_toDigits n.toNat

theorem Field.plain_write (field : Field) : RustText.Plain field.write := by
  cases field with
  | text s => exact plain_jsonEscapeString s
  | number n => exact plain_toString n.toNat

def IsKey (key : String) : Prop :=
  ∀ c ∈ key.toList, (c ≠ '"' ∧ c ≠ '\\') ∧ 0x20 ≤ c.toNat ∧ c.toNat < 0x7f

theorem IsKey.plain {key : String} (h : IsKey key) : RustText.Plain key.toList :=
  fun c hc => (h c hc).2

theorem IsKey.encodes {key : String} (h : IsKey key) : Json.Encodes key.toList key.toList := by
  apply Json.encodes_self
  intro c hc
  obtain ⟨⟨hquote, hslash⟩, hle, -⟩ := h c hc
  refine ⟨hquote, hslash, ?_⟩
  rw [Char.lt_def, UInt32.lt_iff_toNat_lt]
  exact Nat.not_lt.mpr hle

/-- From any member on, the rest of the line is the rest of the object. -/
theorem membersText_writeMember {fields : List (String × Field)}
    (hfields : ∀ m ∈ fields, IsKey m.1 ∧ m.2.Plain) {key text : List Char} {k : String}
    {v : Json.Value} (hkey : Json.Encodes key k.toList) (hv : Json.Reads text v) :
    Json.MembersText (Json.memberText key text ++ (fields.flatMap writeMember ++ ['\x7d']))
      ((k, v) :: fields.map fun m => (m.1, m.2.value)) := by
  induction fields generalizing key text k v with
  | nil => simpa using Json.MembersText.last hkey hv
  | cons m fields ih =>
    obtain ⟨hm, hplain⟩ := hfields m List.mem_cons_self
    have hrest := ih (fun m' hm' => hfields m' (List.mem_cons_of_mem m hm')) hm.encodes
      (Field.reads hplain)
    simpa [writeMember, Json.memberText] using Json.MembersText.cons hkey hv hrest

theorem jsonLine_spec {event : String} (hevent : IsKey event) {fields : List (String × Field)}
    (hfields : ∀ m ∈ fields, IsKey m.1 ∧ m.2.Plain) :
    IsJsonLine (jsonLine event fields)
      (("event", .string event) :: fields.map fun m => (m.1, m.2.value)) := by
  have hkey : IsKey "event" := by
    simp [IsKey]
  have hreads : Json.Reads ('"' :: event.toList ++ ['"']) (.string event) := by
    simpa using hevent.encodes.reads
  have hline : jsonLine event fields = '\x7b' :: (Json.memberText "event".toList
      ('"' :: event.toList ++ ['"']) ++ (fields.flatMap writeMember ++ ['\x7d'])) ++ ['\n'] := by
    have hopen : "\x7b\"event\":\"".toList = '\x7b' :: '"' :: ("event".toList ++ ['"', ':', '"']) :=
      rfl
    have hclose : "\x7d\n".toList = ['\x7d', '\n'] := rfl
    unfold jsonLine Json.memberText
    rw [hopen, hclose]
    simp only [List.append_assoc, List.cons_append, List.nil_append]
  have hspace : ∀ c ∈ ['\n'], Json.isSpace c = true := by
    simp [Json.isSpace]
  have hwrite : RustText.Plain (fields.flatMap writeMember) := plain_flatMap fun m hm => by
    simp [writeMember, (hfields m hm).1.plain, m.2.plain_write]
  rw [hline]
  constructor
  · apply isLine_of_plain
    simp [Json.memberText, hevent.plain, hwrite]
  · exact (membersText_writeMember hfields hkey.encodes hreads).parse_eq hspace

end Output

theorem Events.plain_wallTime (ktimeNs bootOffsetNs : UInt64) :
    Plain (wallTime ktimeNs bootOffsetNs).toList := by
  simp [wallTime, clockTime, plain_zeroPad]

theorem Events.strOf_of_printable {buf : List UInt8} (h : printable buf = true) :
    Plain (strOf buf).toList ∧ asBytes (strOf buf) = cutNul buf := by
  have hstr : (strOf buf).toList = (cutNul buf).map fun b => Char.ofNat b.toNat := by
    rw [strOf, fromUtf8_ascii (cutNul_ascii_of_printable h), Option.getD_some, String.toList_ofList]
  have hplain : Plain (strOf buf).toList := by
    rw [hstr]
    intro c hc
    obtain ⟨b, hb, rfl⟩ := List.mem_map.mp hc
    obtain ⟨hmem, hne⟩ := mem_cutNul hb
    have hp := List.all_eq_true.mp h b hmem
    simp only [Bool.or_eq_true, beq_iff_eq, hne, false_or, Bool.and_eq_true,
      decide_eq_true_eq] at hp
    rw [toNat_char]
    exact ⟨UInt8.le_iff_toNat_le.mp hp.1, UInt8.lt_iff_toNat_lt.mp hp.2⟩
  refine ⟨hplain, ?_⟩
  rw [asBytes_of_ascii hplain.ascii, hstr, List.map_map]
  conv_rhs => rw [← List.map_id (cutNul buf)]
  apply List.map_congr_left
  intro b _
  simp [toNat_char]

theorem TcpEvent.plain_eventName (ev : TcpEvent) : Plain ev.eventName.toList := by
  unfold eventName
  split_ifs <;> simp

theorem TcpEvent.plain_addrOf (ev : TcpEvent) (bytes : Vector UInt8 16) :
    Plain (ev.addrOf bytes).toList := by
  unfold addrOf
  split_ifs
  · exact plain_displayIpv4 _ _ _ _
  · simp [plain_displayIpv6]

theorem TcpEvent.plain_source (ev : TcpEvent) : Plain ev.source.toList := by
  have hport := plain_toString ev.sport.toNat
  have hcolon : Plain ":".toList := by simp
  simp only [source, String.toList_append, plain_append, ev.plain_addrOf, hport, hcolon, and_self]

theorem TcpEvent.plain_destination (ev : TcpEvent) : Plain ev.destination.toList := by
  have hport := plain_toString ev.dport.toNat
  have hcolon : Plain ":".toList := by simp
  simp only [destination, String.toList_append, plain_append, ev.plain_addrOf, hport,
    hcolon, and_self]

theorem execLine_spec {data : List UInt8} {ev : ExecEvent} (h : decodeExec data = some ev)
    (off : UInt64) :
    IsLine (execLine .text off ev) ∧
      ∃ comm filename, asBytes comm = cutNul ev.comm.toList ∧
        asBytes filename = cutNul ev.filename.toList ∧
        IsJsonLine (execLine .json off ev)
          [("event", .string "exec"), ("time", .string (wallTime ev.ktimeNs off)),
            ("pid", .ofNat ev.pid.toNat), ("ppid", .ofNat ev.ppid.toNat),
            ("comm", .string comm), ("filename", .string filename)] := by
  obtain ⟨-, -, -, hvalid⟩ := decodeRecord_eq_some_iff.mp h
  rw [Bool.and_eq_true] at hvalid
  obtain ⟨hcomm, hcommBytes⟩ := strOf_of_printable hvalid.1
  obtain ⟨hfile, hfileBytes⟩ := strOf_of_printable hvalid.2
  have htime := plain_wallTime ev.ktimeNs off
  constructor
  · apply isLine_printRow
    · simp [htime, hcomm]
    · exact hfile
  · refine ⟨_, _, hcommBytes, hfileBytes, jsonLine_spec ?_ ?_⟩
    · simp [IsKey]
    · simp [IsKey, Field.Plain, htime, hcomm, hfile]

theorem openLine_spec {data : List UInt8} {ev : OpenEvent} (h : decodeOpen data = some ev)
    (off : UInt64) :
    IsLine (openLine .text off ev) ∧
      ∃ comm filename, asBytes comm = cutNul ev.comm.toList ∧
        asBytes filename = cutNul ev.filename.toList ∧
        IsJsonLine (openLine .json off ev)
          [("event", .string "open"), ("time", .string (wallTime ev.ktimeNs off)),
            ("pid", .ofNat ev.pid.toNat), ("comm", .string comm),
            ("filename", .string filename)] := by
  obtain ⟨-, -, -, hvalid⟩ := decodeRecord_eq_some_iff.mp h
  rw [Bool.and_eq_true] at hvalid
  obtain ⟨hcomm, hcommBytes⟩ := strOf_of_printable hvalid.1
  obtain ⟨hfile, hfileBytes⟩ := strOf_of_printable hvalid.2
  have htime := plain_wallTime ev.ktimeNs off
  constructor
  · apply isLine_printRow
    · simp [htime, hcomm]
    · exact hfile
  · refine ⟨_, _, hcommBytes, hfileBytes, jsonLine_spec ?_ ?_⟩
    · simp [IsKey]
    · simp [IsKey, Field.Plain, htime, hcomm, hfile]

theorem tcpLine_spec {data : List UInt8} {ev : TcpEvent} (h : decodeTcp data = some ev)
    (off : UInt64) :
    IsLine (tcpLine .text off ev) ∧
      ∃ comm, asBytes comm = cutNul ev.comm.toList ∧
        IsJsonLine (tcpLine .json off ev)
          [("event", .string "tcp"), ("time", .string (wallTime ev.ktimeNs off)),
            ("pid", .ofNat ev.pid.toNat), ("comm", .string comm),
            ("tcp_event", .string ev.eventName), ("source", .string ev.source),
            ("destination", .string ev.destination)] := by
  obtain ⟨-, -, -, hvalid⟩ := decodeRecord_eq_some_iff.mp h
  simp only [validTcp, Bool.and_eq_true] at hvalid
  obtain ⟨hcomm, hcommBytes⟩ := strOf_of_printable hvalid.1.1
  have htime := plain_wallTime ev.ktimeNs off
  have hname := ev.plain_eventName
  have hdest := ev.plain_destination
  constructor
  · apply isLine_printRow
    · simp [htime, hcomm, hname]
    · exact hdest
  · refine ⟨_, hcommBytes, jsonLine_spec ?_ ?_⟩
    · simp [IsKey]
    · simp [IsKey, Field.Plain, htime, hcomm, hname, ev.plain_source, hdest]

namespace EventLoop

theorem isLine_format (line : OutputFormat → List Char) (htext : IsLine (line .text))
    (hjson : IsLine (line .json)) (format : OutputFormat) : IsLine (line format) := by
  cases format with
  | text => exact htext
  | json => exact hjson

theorem Command.isLine_line {cmd : Command} {data : List UInt8} (h : cmd.decodes data = true)
    (format : OutputFormat) (off : UInt64) :
    ∃ cs, cmd.line format off data = some cs ∧ IsLine cs := by
  cases cmd with
  | exec =>
    obtain ⟨ev, hev⟩ := Option.isSome_iff_exists.mp h
    obtain ⟨htext, _, _, -, -, hjson⟩ := execLine_spec hev off
    refine ⟨execLine format off ev, ?_, ?_⟩
    · rw [Command.line, hev, Option.map_some]
    · exact isLine_format (fun format => execLine format off ev) htext hjson.line format
  | fileOpen =>
    obtain ⟨ev, hev⟩ := Option.isSome_iff_exists.mp h
    obtain ⟨htext, _, _, -, -, hjson⟩ := openLine_spec hev off
    refine ⟨openLine format off ev, ?_, ?_⟩
    · rw [Command.line, hev, Option.map_some]
    · exact isLine_format (fun format => openLine format off ev) htext hjson.line format
  | tcp =>
    obtain ⟨ev, hev⟩ := Option.isSome_iff_exists.mp h
    obtain ⟨htext, _, -, hjson⟩ := tcpLine_spec hev off
    refine ⟨tcpLine format off ev, ?_, ?_⟩
    · rw [Command.line, hev, Option.map_some]
    · exact isLine_format (fun format => tcpLine format off ev) htext hjson.line format

theorem Command.line_eq_none {cmd : Command} {data : List UInt8} (h : cmd.decodes data = false)
    (format : OutputFormat) (off : UInt64) : cmd.line format off data = none := by
  cases cmd <;> simpa [Command.line, Command.decodes] using h

theorem lines_step {cmd : Command} {count : Option UInt64} (format : OutputFormat) (off : UInt64)
    {s s' : State} {e : Event} (h : step cmd count s e = some s') :
    s'.lines = s.lines + (written cmd format off s e).count '\n' := by
  cases e with
  | deliver =>
    obtain ⟨record, rest, hevents, -, ⟨hrun, rfl⟩ | ⟨hrun, hdecodes, rfl⟩ |
        ⟨hrun, hdecodes, rfl⟩⟩ :=
      deliver_cases h
    · simp [written, hevents, hrun]
    · obtain ⟨cs, hcs, hline⟩ := Command.isLine_line hdecodes format off
      simp [written, hevents, hrun, hcs, hline.count]
    · simp [written, hevents, hrun, Command.line_eq_none hdecodes]
  | fire record =>
    obtain rfl := Option.some.inj h
    rfl
  | signal =>
    obtain rfl := Option.some.inj h
    rfl
  | check expired =>
    obtain ⟨-, ⟨-, rfl⟩ | ⟨-, rfl⟩⟩ := check_cases h
    · rfl
    · rfl
  | endPoll =>
    obtain ⟨-, rfl⟩ := endPoll_cases h
    rfl
  | warn =>
    obtain ⟨-, rfl⟩ := warn_cases h
    rfl
  | fail =>
    obtain ⟨-, rfl⟩ := fail_cases h
    rfl

end EventLoop

open EventLoop

/-- Every printed event is one line that says what was recorded, and a run has
written as many lines as it has printed events. -/
theorem printed_events_are_lines (off : UInt64) :
    (∀ data ev, decodeExec data = some ev →
      IsLine (execLine .text off ev) ∧
        ∃ comm filename, asBytes comm = cutNul ev.comm.toList ∧
          asBytes filename = cutNul ev.filename.toList ∧
          IsJsonLine (execLine .json off ev)
            [("event", .string "exec"), ("time", .string (wallTime ev.ktimeNs off)),
              ("pid", .ofNat ev.pid.toNat), ("ppid", .ofNat ev.ppid.toNat),
              ("comm", .string comm), ("filename", .string filename)]) ∧
    (∀ data ev, decodeOpen data = some ev →
      IsLine (openLine .text off ev) ∧
        ∃ comm filename, asBytes comm = cutNul ev.comm.toList ∧
          asBytes filename = cutNul ev.filename.toList ∧
          IsJsonLine (openLine .json off ev)
            [("event", .string "open"), ("time", .string (wallTime ev.ktimeNs off)),
              ("pid", .ofNat ev.pid.toNat), ("comm", .string comm),
              ("filename", .string filename)]) ∧
    (∀ data ev, decodeTcp data = some ev →
      IsLine (tcpLine .text off ev) ∧
        ∃ comm, asBytes comm = cutNul ev.comm.toList ∧
          IsJsonLine (tcpLine .json off ev)
            [("event", .string "tcp"), ("time", .string (wallTime ev.ktimeNs off)),
              ("pid", .ofNat ev.pid.toNat), ("comm", .string comm),
              ("tcp_event", .string ev.eventName), ("source", .string ev.source),
              ("destination", .string ev.destination)]) ∧
    ∀ cmd count format filter es s, run (step cmd count) (.start filter) es = some s →
      ∃ lines, stdout cmd count format off (.start filter) es = cmd.header format ++ lines ∧
        lines.count '\n' = s.lines ∧ s.printed = UInt64.ofNat s.lines := by
  refine ⟨fun data ev h => execLine_spec h off, fun data ev h => openLine_spec h off,
    fun data ev h => tcpLine_spec h off, fun cmd count format filter es s hrun => ?_⟩
  have hlines := count_outputs (fun s e s' h => lines_step format off h) hrun
  have hcounted : Counted s :=
    run_invariant (fun _ _ _ h hstep => h.step hstep) hrun (counted_start filter)
  have hstart : (State.start filter).lines = 0 := rfl
  rw [hstart, Nat.zero_add] at hlines
  exact ⟨_, rfl, hlines.symm, hcounted.printed⟩

def quotedExec : List UInt8 :=
  [1, 0, 0, 0, 1, 0, 0, 0] ++ List.replicate 8 0 ++ [1, 0, 0, 0] ++ [7, 0, 0, 0] ++ [1, 0, 0, 0] ++
    [97, 34, 125] ++ List.replicate 13 0 ++ [47, 98, 92, 32, 99] ++ List.replicate 127 0

set_option maxRecDepth 4000 in
theorem printed_events_are_lines_quoted :
    ∃ ev comm filename, decodeExec quotedExec = some ev ∧ asBytes comm = [97, 34, 125] ∧
      asBytes filename = [47, 98, 92, 32, 99] ∧
      IsJsonLine (execLine .json 0 ev)
        [("event", .string "exec"), ("time", .string "00:00:00.000"), ("pid", .ofNat 7),
          ("ppid", .ofNat 1), ("comm", .string comm), ("filename", .string filename)] := by
  have hdecodes : decodeExec quotedExec = some (ReprC.fields (quotedExec.drop 8)) := rfl
  obtain ⟨-, comm, filename, hcomm, hfilename, hline⟩ :=
    (printed_events_are_lines 0).1 quotedExec _ hdecodes
  refine ⟨_, comm, filename, hdecodes, ?_, ?_, ?_⟩
  · rw [hcomm]
    decide
  · rw [hfilename]
    decide
  · have hpid : (ReprC.fields (quotedExec.drop 8) : ExecEvent).pid = 7 := by decide
    have hppid : (ReprC.fields (quotedExec.drop 8) : ExecEvent).ppid = 1 := by decide
    have htime : wallTime (ReprC.fields (quotedExec.drop 8) : ExecEvent).ktimeNs 0 =
        "00:00:00.000" := by
      decide
    rw [hpid, hppid, htime] at hline
    exact hline

end Tracelet
