import Cascette.Bpsv.Document
import Cascette.Espec.RoundTrip

/-!
# A document that is read, written and read again

What is read from a text can be written and read again (`BpsvDocument.parse_format`). The names of
the fields come from a header line that was split, so that they hold none of the signs that separate
fields, names and lines; and the line of a row was trimmed before it was split, so that it is
neither blank nor a comment when it is put together again.
-/

namespace Cascette.Bpsv

open Lib List BpsvSchema
open Espec (decimal isDigit_decimal)

/-! ## Numbers -/

theorem decimal_ne_nil (n : ℕ) : decimal n ≠ [] := Nat.toDigits_ne_nil

variable {c : Char}

theorem notMem_decimal (h : c.isDigit = false) (n : ℕ) : c ∉ decimal n := by
  intro hMem
  rw [isDigit_decimal hMem] at h
  cases h

variable {n bound : ℕ} {digits : List Char}

theorem parseDigits_decimal (h : n < bound) : parseDigits bound (decimal n) = some n := by
  have hDigits : (decimal n).all Char.isDigit = true := all_eq_true.mpr fun _ => isDigit_decimal
  have hValue : Nat.ofDigitChars 10 (decimal n) 0 = n := Nat.ofDigitChars_ten_toDigits
  rw [parseDigits, if_pos ⟨decimal_ne_nil n, hDigits⟩]
  rw [hValue, if_pos h]

theorem parseUnsigned_decimal (h : n < bound) : parseUnsigned bound (decimal n) = some n := by
  rw [parseUnsigned.eq_2]
  · exact parseDigits_decimal h
  · intro digits hDigits
    exact notMem_decimal rfl n (hDigits ▸ mem_cons_self)

theorem parseDigits_lt (h : parseDigits bound digits = some n) : n < bound := by
  rw [parseDigits] at h
  split at h
  · dsimp only at h
    split at h
    · next hLt =>
      cases h
      exact hLt
    · cases h
  · cases h

theorem parseUnsigned_lt (h : parseUnsigned bound digits = some n) : n < bound := by
  rw [parseUnsigned.eq_def] at h
  split at h <;> exact parseDigits_lt h

/-! ## White space -/

theorem isWhitespace_of_isDigit (h : c.isDigit = true) : isWhitespace c = false := by
  rw [Char.isDigit, Bool.and_eq_true, decide_eq_true_iff, decide_eq_true_iff] at h
  have hLow : 48 ≤ c.toNat := UInt32.le_iff_toNat_le.mp h.1
  have hHigh : c.toNat ≤ 57 := UInt32.le_iff_toNat_le.mp h.2
  rw [isWhitespace, decide_eq_false_iff_not]
  omega

theorem rdropWhile_decimal (front : List Char) (n : ℕ) :
    (front ++ decimal n).rdropWhile isWhitespace = front ++ decimal n := by
  refine rdropWhile_eq_self_iff.mpr fun hNe => ?_
  rw [getLast_append_of_ne_nil hNe (decimal_ne_nil n),
    isWhitespace_of_isDigit (isDigit_decimal (getLast_mem _))]
  exact Bool.false_ne_true

/-! ## Types and fields -/

namespace BpsvType

variable {fieldType : BpsvType}

theorem sizeHint_lt {upper : UpperCase} {spec : List Char}
    (h : parse upper spec = .ok fieldType) : fieldType.sizeHint < 2 ^ 64 := by
  rw [parse] at h
  split at h
  · split at h
    · cases h
    · next size hSize =>
      have hLt := parseUnsigned_lt hSize
      dsimp only at h
      split at h
      · cases h
        exact hLt
      · split at h
        · cases h
          exact hLt
        · split at h
          · cases h
            exact hLt
          · cases h
  · cases h

theorem isUpper_name (fieldType : BpsvType) : ∀ c ∈ fieldType.name, c.isUpper = true := by
  intro c hMem
  cases fieldType <;> fin_cases hMem <;> rfl

theorem notMem_name (h : c.isUpper = false) (fieldType : BpsvType) : c ∉ fieldType.name := by
  intro hMem
  rw [isUpper_name fieldType c hMem] at h
  cases h

theorem parse_toSpec (upper : UpperCase)
    (h : fieldType.sizeHint < 2 ^ 64) : parse upper fieldType.toSpec = .ok fieldType := by
  have hName : ':' ∉ fieldType.name := notMem_name rfl fieldType
  have hUpper : upper.map fieldType.name = fieldType.name :=
    upper.map_of_isUpper _ fieldType.isUpper_name
  rw [parse, toSpec, splitOn_append_cons hName (notMem_decimal rfl _)]
  dsimp only
  rw [parseUnsigned_decimal h]
  rw [hUpper]
  cases fieldType <;> rfl

theorem notMem_toSpec (hDigit : c.isDigit = false) (hColon : c ≠ ':')
    (hUpper : c.isUpper = false) (fieldType : BpsvType) : c ∉ fieldType.toSpec := by
  rw [toSpec, mem_append, mem_cons, not_or, not_or]
  exact ⟨notMem_name hUpper fieldType, hColon, notMem_decimal hDigit _⟩

end BpsvType

namespace BpsvField

/-- A field that can be written into a header. -/
structure Writable (field : BpsvField) : Prop where
  bang : '!' ∉ field.name
  bar : '|' ∉ field.name
  newline : '\n' ∉ field.name
  size : field.fieldType.sizeHint < 2 ^ 64

variable {field : BpsvField}

theorem parse_toSpec (upper : UpperCase) (h : field.Writable) :
    parse upper field.toSpec = .ok field := by
  have hType : '!' ∉ field.fieldType.toSpec := BpsvType.notMem_toSpec rfl (by decide) rfl _
  rw [parse, toSpec, splitOn_append_cons h.bang hType]
  dsimp only
  rw [BpsvType.parse_toSpec upper h.size, ok_bind]

theorem notMem_toSpec (hName : c ∉ field.name) (hBang : c ≠ '!')
    (hType : c ∉ field.fieldType.toSpec) : c ∉ field.toSpec := by
  rw [toSpec, mem_append, mem_cons, not_or, not_or]
  exact ⟨hName, hBang, hType⟩

theorem Writable.bar_notMem (h : field.Writable) : '|' ∉ field.toSpec :=
  notMem_toSpec h.bar (by decide) (BpsvType.notMem_toSpec rfl (by decide) rfl _)

theorem Writable.newline_notMem (h : field.Writable) : '\n' ∉ field.toSpec :=
  notMem_toSpec h.newline (by decide) (BpsvType.notMem_toSpec rfl (by decide) rfl _)

theorem writable_of_parse {upper : UpperCase} {spec : List Char} (h : parse upper spec = .ok field)
    (hBar : '|' ∉ spec) (hNewline : '\n' ∉ spec) : field.Writable := by
  rw [parse] at h
  split at h
  · next name typeSpec hSplit =>
    obtain ⟨fieldType, hType, h⟩ := bind_eq_ok.mp h
    cases h
    have hName : name ∈ spec.splitOn '!' := by
      rw [hSplit]
      exact mem_cons_self
    obtain ⟨hBang, hSub⟩ := of_mem_splitOn hName
    exact ⟨hBang, fun hMem => hBar (hSub hMem), fun hMem => hNewline (hSub hMem),
      BpsvType.sizeHint_lt hType⟩
  · cases h

end BpsvField

/-! ## Headers -/

namespace BpsvSchema

structure Writable (schema : BpsvSchema) : Prop where
  nonempty : schema.fields ≠ []
  fields : ∀ field ∈ schema.fields, field.Writable

variable {schema : BpsvSchema}

theorem writable_of_parse {upper : UpperCase} {header : List Char}
    (h : parse upper header = .ok schema) (hNewline : '\n' ∉ header) : schema.Writable := by
  rw [parse] at h
  split at h
  · cases h
  · obtain ⟨fields, hFields, h⟩ := bind_eq_ok.mp h
    cases h
    have hLength := (mapM_eq_ok.mp hFields).length_eq
    refine ⟨fun hNil => ?_, fun field hField => ?_⟩
    · dsimp only at hNil
      rw [hNil, length_nil, length_eq_zero_iff] at hLength
      exact splitOn_ne_nil _ _ hLength
    · obtain ⟨spec, hSpec, hParse⟩ := exists_of_mem_mapM hFields hField
      obtain ⟨hBar, hSub⟩ := of_mem_splitOn hSpec
      exact BpsvField.writable_of_parse hParse hBar fun hMem => hNewline (hSub hMem)

variable (h : schema.Writable)
include h

theorem splitOn_toHeader : schema.toHeader.splitOn '|' = schema.fields.map BpsvField.toSpec := by
  refine splitOn_intercalate _ ?_ (by simpa using h.nonempty)
  exact forall_mem_map.mpr fun field hField => (h.fields field hField).bar_notMem

theorem toHeader_eq : ∃ front field, schema.toHeader = front ++ BpsvField.toSpec field := by
  obtain ⟨fields, field, hFields⟩ := (eq_nil_or_concat schema.fields).resolve_left h.nonempty
  obtain ⟨front, hFront⟩ :=
    exists_intercalate_concat ['|'] (fields.map BpsvField.toSpec) field.toSpec
  refine ⟨front, field, ?_⟩
  rw [toHeader, hFields, concat_eq_append, map_append, map_singleton, hFront]

theorem bang_mem_toHeader : '!' ∈ schema.toHeader := by
  obtain ⟨front, field, hHeader⟩ := toHeader_eq h
  rw [hHeader, BpsvField.toSpec]
  simp

theorem rdropWhile_toHeader : schema.toHeader.rdropWhile isWhitespace = schema.toHeader := by
  obtain ⟨front, field, hHeader⟩ := toHeader_eq h
  have hEnd : schema.toHeader = (front ++ (field.name ++ '!' :: (field.fieldType.name ++ [':']))) ++
      decimal field.fieldType.sizeHint := by
    rw [hHeader, BpsvField.toSpec, BpsvType.toSpec]
    simp
  rw [hEnd, rdropWhile_decimal]

theorem newline_notMem_toHeader : '\n' ∉ schema.toHeader :=
  notMem_intercalate (by decide)
    (forall_mem_map.mpr fun field hField => (h.fields field hField).newline_notMem)

omit h

theorem parse_toHeader (upper : UpperCase) (h : schema.Writable) :
    parse upper schema.toHeader = .ok schema := by
  have hFields : (schema.fields.map BpsvField.toSpec).mapM (BpsvField.parse upper) =
      .ok schema.fields := by
    refine mapM_eq_ok.mpr (forall₂_map_left_iff.mpr (forall₂_same.mpr ?_))
    exact fun field hField => BpsvField.parse_toSpec upper (h.fields field hField)
  rw [parse, if_neg (ne_nil_of_mem (bang_mem_toHeader h)), splitOn_toHeader h, hFields, ok_bind]

end BpsvSchema

/-! ## Lines -/

variable {row : BpsvRow} {schema : BpsvSchema}

theorem rawValues_of_parse {rawValues : List (List Char)}
    (h : BpsvRow.parse rawValues schema = .ok row) : row.rawValues = rawValues := by
  rw [BpsvRow.parse] at h
  split at h
  · cases h
  · obtain ⟨values, -, h⟩ := bind_eq_ok.mp h
    cases h
    rfl

/-- A row whose line is read as the row again. -/
structure BpsvRow.Writable (schema : BpsvSchema) (row : BpsvRow) : Prop where
  trimmed : trim isWhitespace row.toLine = row.toLine
  nonempty : row.toLine ≠ []
  notComment : row.toLine.head? ≠ some '#'
  newline : '\n' ∉ row.toLine
  split : row.toLine.splitOn '|' = row.rawValues
  parse : BpsvRow.parse row.rawValues schema = .ok row

namespace BpsvDocument

structure Writable (document : BpsvDocument) : Prop where
  schema : document.schema.Writable
  rows : ∀ row ∈ document.rows, row.Writable document.schema

variable {line text : List Char} {document document' : BpsvDocument} (seqn : UInt32)

theorem isPrefixOf_eq_false (h : line.head? ≠ some '#') : seqnMark.isPrefixOf line = false := by
  cases line with
  | nil => rfl
  | cons c line =>
    have hc : ('#' == c) = false := by
      rw [beq_eq_false_iff_ne]
      rintro rfl
      exact h rfl
    rw [seqnMark, isPrefixOf_cons_cons, hc, Bool.false_and]

theorem readLine_toLine (h : row.Writable document.schema) :
    document.readLine row.toLine = .ok { document with rows := document.rows ++ [row] } := by
  rw [readLine, h.trimmed, if_neg h.nonempty, isPrefixOf_eq_false h.notComment,
    if_neg Bool.false_ne_true, if_neg h.notComment, h.split, addRawRow, h.parse, ok_bind]

def seqnLine (seqn : UInt32) : List Char := seqnMark ++ [' ', '=', ' '] ++ decimal seqn.toNat

theorem numberPart_decimal (n : ℕ) : numberPart ('=' :: ' ' :: decimal n) = decimal n := by
  have hHead : ∀ c, (decimal n).head? = some c → isWhitespace c = false := fun c hc =>
    isWhitespace_of_isDigit (isDigit_decimal (mem_of_mem_head? hc))
  have hTrim : trim isWhitespace (' ' :: decimal n) = decimal n := by
    rw [trim, dropWhile_cons_of_pos rfl, dropWhile_eq_self hHead]
    exact rdropWhile_decimal [] n
  rw [numberPart, if_pos mem_cons_self, dropWhile_cons_of_neg (by decide),
    drop_one, tail_cons, hTrim]

theorem parseSequenceLine_seqnLine : parseSequenceLine (seqnLine seqn) = .ok seqn := by
  have hAfter : ((seqnLine seqn).drop seqnMark.length).dropWhile isWhitespace =
      '=' :: ' ' :: decimal seqn.toNat := by
    rfl
  rw [parseSequenceLine, hAfter, if_neg (cons_ne_nil _ _), numberPart_decimal,
    parseUnsigned_decimal seqn.toNat_lt]
  dsimp only
  rw [UInt32.ofNat_toNat]

theorem rdropWhile_seqnLine :
    (seqnLine seqn).rdropWhile isWhitespace = seqnLine seqn := rdropWhile_decimal _ _

theorem readLine_seqnLine (document : BpsvDocument) (seqn : UInt32) :
    document.readLine (seqnLine seqn) = .ok { document with sequenceNumber := some seqn } := by
  have hTrim : trim isWhitespace (seqnLine seqn) = seqnLine seqn := by
    rw [trim, dropWhile_eq_self (by rintro c ⟨⟩; rfl), rdropWhile_seqnLine]
  have hMark : seqnMark.isPrefixOf (seqnLine seqn) = true :=
    isPrefixOf_iff_prefix.mpr ⟨[' ', '=', ' '] ++ decimal seqn.toNat,
      by rw [seqnLine, append_assoc]⟩
  rw [readLine, hTrim, if_neg (by rintro ⟨⟩), if_pos hMark, parseSequenceLine_seqnLine, ok_bind]

theorem writable_of_parse (hNewline : '\n' ∉ line)
    (hNe : trim isWhitespace line ≠ []) (hComment : (trim isWhitespace line).head? ≠ some '#')
    (h : BpsvRow.parse ((trim isWhitespace line).splitOn '|') schema = .ok row) :
    row.Writable schema := by
  have hRaw := rawValues_of_parse h
  have hLine : row.toLine = trim isWhitespace line := by
    rw [BpsvRow.toLine, hRaw, intercalate_splitOn]
  refine ⟨?_, ?_, ?_, ?_, ?_, ?_⟩
  · rw [hLine, trim, dropWhile_trim, rdropWhile_trim]
  · rw [hLine]
    exact hNe
  · rw [hLine]
    exact hComment
  · rw [hLine]
    exact fun hMem => hNewline (mem_of_mem_trim hMem)
  · rw [hLine, hRaw]
  · rw [hRaw, h]

theorem Writable.readLine (h : document.Writable)
    (hNewline : '\n' ∉ line) (hRead : document.readLine line = .ok document') :
    document'.Writable := by
  rw [BpsvDocument.readLine] at hRead
  split at hRead
  · cases hRead
    exact h
  · next hNe =>
    split at hRead
    · obtain ⟨seqn, -, hRead⟩ := bind_eq_ok.mp hRead
      cases hRead
      exact ⟨h.schema, h.rows⟩
    · split at hRead
      · cases hRead
        exact h
      · next hComment =>
        obtain ⟨row, hRow, hRead⟩ := bind_eq_ok.mp hRead
        cases hRead
        refine ⟨h.schema, fun row' hMem => ?_⟩
        rcases mem_append.mp hMem with hOld | hNew
        · exact h.rows row' hOld
        · cases mem_singleton.mp hNew
          exact writable_of_parse hNewline hNe hComment hRow

theorem Writable.readLines {lines : List (List Char)}
    (h : document.Writable) (hNewline : ∀ line ∈ lines, '\n' ∉ line)
    (hRead : lines.foldlM BpsvDocument.readLine document = .ok document') : document'.Writable := by
  induction lines generalizing document with
  | nil =>
    cases hRead
    exact h
  | cons line lines ih =>
    obtain ⟨next, hNext, hRead⟩ := bind_eq_ok.mp hRead
    exact ih (h.readLine (hNewline line mem_cons_self) hNext)
      (fun line' hLine => hNewline line' (mem_cons_of_mem line hLine)) hRead

theorem writable_of_parse_eq_ok {upper : UpperCase}
    (h : parse upper text = .ok document) : document.Writable := by
  have hNewline : ∀ line ∈ linesOf text, '\n' ∉ line := forall_mem_map.mpr fun _ hRaw =>
    newline_notMem_rdropWhile rfl hRaw
  rw [parse] at h
  split at h
  · cases h
  · next header lines hLines =>
    rw [hLines] at hNewline
    split at h
    · cases h
    · obtain ⟨schema, hSchema, h⟩ := bind_eq_ok.mp h
      have hHeader := BpsvSchema.writable_of_parse hSchema (hNewline header mem_cons_self)
      exact Writable.readLines ⟨hHeader, fun _ hRow => absurd hRow not_mem_nil⟩
        (fun line hLine => hNewline line (mem_cons_of_mem header hLine)) h

/-! ## Documents -/

theorem toLines_eq (document : BpsvDocument) :
    document.toLines = document.schema.toHeader ::
      (document.sequenceNumber.elim [] (fun seqn => [seqnLine seqn]) ++
        document.rows.map BpsvRow.toLine) := rfl

/-- What holds of the header, of every sequence line and of every row that can be written. -/
theorem Writable.forall_toLines (h : document.Writable) {P : List Char → Prop}
    (hHeader : P document.schema.toHeader) (hSeqn : ∀ seqn, P (seqnLine seqn))
    (hRow : ∀ row : BpsvRow, row.Writable document.schema → P row.toLine) :
    ∀ line ∈ document.toLines, P line := by
  intro line hLine
  rw [toLines_eq, mem_cons, mem_append] at hLine
  rcases hLine with rfl | hLine | hLine
  · exact hHeader
  · cases hSome : document.sequenceNumber with
    | none =>
      rw [hSome] at hLine
      cases hLine
    | some seqn =>
      rw [hSome] at hLine
      cases mem_singleton.mp hLine
      exact hSeqn seqn
  · obtain ⟨row, hMem, rfl⟩ := mem_map.mp hLine
    exact hRow row (h.rows row hMem)

theorem newline_notMem_seqnLine : '\n' ∉ seqnLine seqn := by
  rw [seqnLine, mem_append, not_or]
  exact ⟨by decide, notMem_decimal rfl seqn.toNat⟩

theorem Writable.linesOf_format (h : document.Writable) :
    linesOf document.format = document.toLines := by
  have hNewline : ∀ line ∈ document.toLines, '\n' ∉ line :=
    h.forall_toLines (newline_notMem_toHeader h.schema) newline_notMem_seqnLine
      fun _ hRow => hRow.newline
  have hEnd : ∀ line ∈ document.toLines, line.rdropWhile isWhitespace = line := by
    refine h.forall_toLines (rdropWhile_toHeader h.schema) rdropWhile_seqnLine fun row hRow => ?_
    rw [← hRow.trimmed, rdropWhile_trim]
  rw [linesOf, format, rawLines_flatten hNewline, map_map]
  refine (map_congr_left fun line hLine => ?_).trans (map_id _)
  exact (rdropWhile_concat_pos isWhitespace line '\n' rfl).trans (hEnd line hLine)

theorem foldlM_rows {rows : List BpsvRow} (document : BpsvDocument)
    (h : ∀ row ∈ rows, row.Writable document.schema) :
    (rows.map BpsvRow.toLine).foldlM readLine document =
      .ok { document with rows := document.rows ++ rows } := by
  induction rows generalizing document with
  | nil =>
    rw [map_nil, foldlM_nil, append_nil]
    rfl
  | cons row rows ih =>
    have hRest := ih { document with rows := document.rows ++ [row] }
      fun row' hRow => h row' (mem_cons_of_mem row hRow)
    rw [map_cons, foldlM_cons, readLine_toLine (h row mem_cons_self), ok_bind, hRest]
    rw [append_assoc, singleton_append]

theorem Writable.parse_format (upper : UpperCase) (h : document.Writable) :
    parse upper document.format = .ok document := by
  rw [parse, h.linesOf_format, toLines_eq]
  dsimp only
  rw [if_neg (not_not_intro (bang_mem_toHeader h.schema)),
    parse_toHeader upper h.schema, ok_bind, foldlM_append]
  obtain ⟨schema, rows, seqn⟩ := document
  cases seqn with
  | none => exact foldlM_rows (new schema) h.rows
  | some seqn =>
    dsimp only [Option.elim_some]
    rw [foldlM_cons, readLine_seqnLine, ok_bind, foldlM_nil]
    exact foldlM_rows { new schema with sequenceNumber := some seqn } h.rows

/-- A document that was parsed is written as a text that parses to the same schema, sequence number
and rows. -/
theorem parse_format_of_parse (upper : UpperCase) (text : List Char) (document : BpsvDocument)
    (h : parse upper text = .ok document) : parse upper document.format = .ok document :=
  (writable_of_parse_eq_ok h).parse_format upper

/-- A number with a sign in front, a comment, a blank line and white space around a row. -/
def sampleText : List Char :=
  ['A', '!', 'd', 'e', 'c', ':', '+', '4', '|', '!', 'S', 'T', 'R', 'I', 'N', 'G', ':', '0', '\r',
    '\n', '#', ' ', 'c', '\n', '\n', '#', '#', ' ', 's', 'e', 'q', 'n', ':', '7', '\n', ' ', '+',
    '5', '|', '#', ' ', '\n']

def sampleDocument : BpsvDocument where
  schema := { fields := [⟨['A'], .dec 4⟩, ⟨[], .string 0⟩] }
  rows := [{ values := [.dec 5, .string ['#']], rawValues := [['+', '5'], ['#']] }]
  sequenceNumber := some 7

def asciiUpperCase : UpperCase where
  map := List.map Char.toUpper
  map_of_isUpper text h := by
    refine (List.map_congr_left fun c hc => ?_).trans (List.map_id text)
    have hUpper : c.val ≤ 'Z'.val := (of_decide_eq_true (h c hc)).2
    exact dif_neg fun hLower => absurd (UInt32.le_trans hLower.1 hUpper) (by decide)

theorem parse_format_sampleText :
    parse asciiUpperCase sampleText = .ok sampleDocument ∧
      parse asciiUpperCase sampleDocument.format = .ok sampleDocument :=
  ⟨rfl, parse_format_of_parse asciiUpperCase sampleText sampleDocument rfl⟩

end BpsvDocument

end Cascette.Bpsv
