import Tracelet.Output

namespace Tracelet
open RustText

namespace Output

/-- The loop of `json_escape_string`, which appends to what is in `out`. -/
def jsonEscapeStringInto (out : List Char) (s : String) : List Char :=
  (asBytes s).foldl (fun out b => out ++ escapeByte b) (out ++ ['"']) ++ ['"']

theorem jsonEscapeStringInto_eq (out : List Char) (s : String) :
    jsonEscapeStringInto out s = out ++ jsonEscapeString s := by
  rw [jsonEscapeStringInto, List.foldl_append_eq_append, ← List.flatMap_def, jsonEscapeString]
  simp only [List.append_assoc, List.cons_append, List.nil_append]

/-- A string literal of printable ASCII that is read as `t`. -/
structure IsStringLiteral (cs : List Char) (t : String) : Prop where
  quoted : ∃ body, cs = '"' :: body ++ ['"']
  plain : Plain cs
  parse : Json.parse cs = some (.string t)

theorem isStringLiteral_jsonEscapeString (s : String) :
    IsStringLiteral (jsonEscapeString s) (charPerByte s) :=
  ⟨⟨_, rfl⟩, plain_jsonEscapeString s, (encodes_flatMap_escapeByte (asBytes s)).parse_eq⟩

/-- A literal is appended, and it is read as one character for each byte of the
string. Only an ASCII string is the same as that. -/
theorem jsonEscapeStringInto_spec (out : List Char) (s : String) :
    ∃ lit, jsonEscapeStringInto out s = out ++ lit ∧ IsStringLiteral lit (charPerByte s) ∧
      (Json.parse lit = some (.string s) ↔ ∀ c ∈ s.toList, c.toNat < 0x80) := by
  have hlit := isStringLiteral_jsonEscapeString s
  refine ⟨jsonEscapeString s, jsonEscapeStringInto_eq out s, hlit, ?_⟩
  rw [hlit.parse, Option.some.injEq, Json.Value.string.injEq]
  exact charPerByte_eq_self_iff

/-- The string of the test of non-ASCII bytes: U+00FF is read back as U+00C3 and
U+00BF. -/
theorem jsonEscapeString_not_round_trip :
    jsonEscapeString "\x00ÿ" = "\"\\u0000\\u00c3\\u00bf\"".toList ∧
      Json.parse (jsonEscapeString "\x00ÿ") = some (.string "\x00Ã¿") ∧
      ¬ ∀ out s, ∃ lit, jsonEscapeStringInto out s = out ++ lit ∧ IsStringLiteral lit s := by
  have hbytes : charPerByte "\x00ÿ" = "\x00Ã¿" := by decide
  have hparse := (isStringLiteral_jsonEscapeString "\x00ÿ").parse
  rw [hbytes] at hparse
  refine ⟨by decide, hparse, fun h => ?_⟩
  obtain ⟨lit, hpush, hlit⟩ := h [] "\x00ÿ"
  rw [jsonEscapeStringInto_eq, List.nil_append, List.nil_append] at hpush
  have hback := hlit.parse
  rw [← hpush, hparse, Option.some.injEq, Json.Value.string.injEq] at hback
  exact absurd hback (by decide)

end Output

end Tracelet
