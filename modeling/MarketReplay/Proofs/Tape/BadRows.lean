import MarketReplay.Proofs.Csv.Lines
import MarketReplay.Proofs.Run.Steps
import MarketReplay.Proofs.Tape.RowOrder

/-!
# Where a bad row stands

A table that is refused for a bad row is refused for the first row without a point, and the number
that is reported counts the records up to it (`PriceTable.readRows_eq_badRow_iff`). The line on which
the row starts is that number and the idle line ends before it: those of empty lines and comments,
and those within quotes (`PriceTable.bad_row_located`).
-/

namespace MarketReplay

namespace PriceTable

/-! ### Faults of rows -/

/-- The fault of a record's fields, if it is for a bad row that they have no point. -/
def rowFault? (header fields : List String) : Option RowFault :=
  match row? header (fields.map Text.trimmed) with
  | none => some .shape
  | some row =>
    match row.point 0 with
    | .error (.badRow _ fault) => some fault
    | _ => none

section

variable {α β : Type}

/-- Whether a result is not the error of a bad row. -/
def NoBadRow (result : Except LoadError α) : Prop :=
  ∀ line fault, result ≠ .error (.badRow line fault)

theorem NoBadRow.bind {x : Except LoadError α} {f : α → Except LoadError β} (hx : NoBadRow x)
    (hf : ∀ a, NoBadRow (f a)) : NoBadRow (x >>= f) := by
  intro line fault heq
  cases x with
  | error e =>
      cases heq
      exact hx line fault rfl
  | ok a => exact hf a line fault heq

theorem NoBadRow.map {x : Except LoadError α} (hx : NoBadRow x) (f : α → β) :
    NoBadRow (x.map f) := by
  intro line fault heq
  cases x with
  | error e =>
      cases heq
      exact hx line fault rfl
  | ok a => cases heq

end

theorem parseTime_noBadRow (s : String) : NoBadRow (parseTime s) := by
  intro line fault
  unfold parseTime
  repeat' split
  all_goals nofun

theorem parseUniversal_noBadRow (second : Int) : NoBadRow (parseUniversal second) := by
  intro line fault
  unfold parseUniversal
  repeat' split
  all_goals nofun

theorem parsePrice_noBadRow (column s : String) : NoBadRow (parsePrice column s) := by
  intro line fault
  unfold parsePrice
  split <;> nofun

theorem parseOptional_noBadRow (column : String) (text : Option String) :
    NoBadRow (parseOptional column text) := by
  cases text with
  | none => exact fun line fault => nofun
  | some s => exact (parsePrice_noBadRow column s).map some

/-- The amounts of a row are not faults of the row. -/
theorem amounts_noBadRow (row : Row) (symbol : Symbol) (time : DateTime) :
    NoBadRow (do
      let price ← parsePrice "price" row.price
      let openPrice ← parseOptional "open" row.openPrice
      let factor ← parseOptional "factor" row.factor
      return (⟨symbol, time, price, openPrice, factor.getD PricePoint.unitFactor⟩ : PricePoint)) :=
  (parsePrice_noBadRow _ _).bind fun _ => (parseOptional_noBadRow _ _).bind fun _ =>
    (parseOptional_noBadRow _ _).bind fun _ _ _ => nofun

/-- A row has a fault that is reported with its number, or the same result at every number. -/
theorem point_cases (row : Row) :
    (∃ fault, ∀ line, row.point line = .error (.badRow line fault)) ∨
      NoBadRow (row.point 0) ∧ ∀ line, row.point line = row.point 0 := by
  unfold Row.point
  cases Symbol.parse row.symbol with
  | error e => exact .inl ⟨.symbol e, fun line => rfl⟩
  | ok symbol =>
      cases row.time with
      | some t =>
          refine .inr ⟨?_, fun line => rfl⟩
          exact (parseTime_noBadRow t).bind fun time => amounts_noBadRow row symbol time
      | none =>
          cases row.second with
          | some second =>
              refine .inr ⟨?_, fun line => rfl⟩
              exact (parseUniversal_noBadRow second).bind fun time =>
                amounts_noBadRow row symbol time
          | none => exact .inl ⟨.noTime, fun line => rfl⟩

/-- The first row has a fault, or a point behind which the others are read, or an error that is not
that of a bad row. -/
theorem readRows_cons_cases (header : List String) (number : Nat) (record : Csv.Record)
    (rest : List Csv.Record) :
    (∃ fault, rowFault? header record.fields = some fault ∧ point? header record.fields = none ∧
      readRows header number (record :: rest) = .error (.badRow number fault)) ∨
    (∃ p, rowFault? header record.fields = none ∧ point? header record.fields = some p ∧
      readRows header number (record :: rest) =
        (readRows header (number + 1) rest).map (p :: ·)) ∨
    rowFault? header record.fields = none ∧ point? header record.fields = none ∧
      NoBadRow (readRows header number (record :: rest)) := by
  generalize hread : readRows header number (record :: rest) = result
  rw [readRows] at hread
  unfold rowFault? point?
  cases hrow : row? header (record.fields.map Text.trimmed) with
  | none =>
      rw [hrow] at hread
      exact .inl ⟨.shape, rfl, rfl, hread.symm⟩
  | some row =>
      rw [hrow] at hread
      simp only [Option.bind_some] at hread ⊢
      rcases point_cases row with ⟨fault, hfault⟩ | ⟨hnone, hsame⟩
      · rw [hfault] at hread
        rw [hfault]
        exact .inl ⟨fault, rfl, rfl, hread.symm⟩
      · rw [hsame] at hread
        cases hpoint : row.point 0 with
        | ok p =>
            rw [hpoint] at hread
            exact .inr (.inl ⟨p, rfl, rfl, hread.symm⟩)
        | error e =>
            rw [hpoint] at hread hnone
            subst hread
            refine .inr (.inr ⟨?_, rfl, fun line fault heq => ?_⟩)
            · cases e with
              | badRow line fault => exact absurd rfl (hnone line fault)
              | _ => rfl
            · cases heq
              exact hnone line fault rfl

/-- Rows are refused for a bad one if it is the first without a point; its number counts from that
of the first row. -/
theorem readRows_eq_badRow_iff {header : List String} {number line : Nat} {fault : RowFault}
    {records : List Csv.Record} :
    readRows header number records = .error (.badRow line fault) ↔
      ∃ earlier record later, records = earlier ++ record :: later ∧
        (∀ r ∈ earlier, (point? header r.fields).isSome) ∧
        rowFault? header record.fields = some fault ∧ line = number + earlier.length := by
  induction records generalizing number with
  | nil => simp [readRows]
  | cons record rest ih =>
      constructor
      · intro hread
        rcases readRows_cons_cases header number record rest with
          ⟨own, hown, -, hresult⟩ | ⟨p, -, hpoint, hresult⟩ | ⟨-, -, hnone⟩
        · rw [hresult] at hread
          cases hread
          exact ⟨[], record, rest, rfl, List.forall_mem_nil _, hown, rfl⟩
        · rw [hresult] at hread
          obtain ⟨earlier, bad, later, hrecords, hearlier, hfault, hline⟩ :=
            ih.1 (map_eq_error_iff.1 hread)
          refine ⟨record :: earlier, bad, later, congrArg (record :: ·) hrecords, ?_, hfault, ?_⟩
          · exact List.forall_mem_cons.2 ⟨by rw [hpoint]; rfl, hearlier⟩
          · rw [List.length_cons]
            omega
        · exact absurd hread (hnone line fault)
      · rintro ⟨earlier, bad, later, hrecords, hearlier, hfault, hline⟩
        have hhead := readRows_cons_cases header number record rest
        rcases List.cons_eq_append_iff.1 hrecords with ⟨rfl, hbad⟩ | ⟨before, rfl, rfl⟩
        · -- The first row has the fault.
          obtain ⟨rfl, rfl⟩ := List.cons.inj hbad
          rw [hfault] at hhead
          obtain ⟨own, hown, -, hresult⟩ | ⟨p, hown, -⟩ | ⟨hown, -⟩ := hhead
          · obtain rfl := Option.some.inj hown
            exact hline ▸ hresult
          · cases hown
          · cases hown
        · -- The first row has a point.
          obtain ⟨hpoint, hbefore⟩ := List.forall_mem_cons.1 hearlier
          obtain ⟨own, -, hnone, -⟩ | ⟨p, -, -, hresult⟩ | ⟨-, hnone, -⟩ := hhead
          · rw [hnone] at hpoint
            cases hpoint
          · rw [List.length_cons] at hline
            refine hresult.trans (map_eq_error_iff.2 (ih.2 ?_))
            exact ⟨before, bad, later, rfl, hbefore, hfault, by omega⟩
          · rw [hnone] at hpoint
            cases hpoint

/-- A table is refused for a bad row only after its header is read, and with the error of its
rows. -/
theorem readRows_of_parse {content : String} {line : Nat} {fault : RowFault}
    (h : parse content = .error (.badRow line fault)) :
    ∃ header rows, Csv.records (content.toList.dropWhile (· == '\ufeff')) = header :: rows ∧
      readRows (header.fields.map Text.trimmed) 2 rows = .error (.badRow line fault) := by
  unfold parse at h
  simp only at h
  split at h
  · cases h
  split at h
  · cases h
  split at h
  · cases h
  split at h
  · cases h
  cases hrecords : Csv.records (content.toList.dropWhile (· == '\ufeff')) with
  | nil => simp_all
  | cons header rows =>
      rw [hrecords] at h
      exact ⟨header, rows, rfl, map_eq_error_iff.1 h⟩

/-- A row of a table and what stands around it: the byte order marks, the text before the row, the
character that opens it and the text behind that; and the records that these are read as. -/
structure RowPlace where
  marks : List Char
  before : List Char
  opening : Char
  behind : List Char
  header : Csv.Record
  earlier : List Csv.Record
  record : Csv.Record
  later : List Csv.Record

namespace RowPlace

/-- The columns of the table. -/
def columns (w : RowPlace) : List String := w.header.fields.map Text.trimmed

/-- The line on which the row starts, by the line ends before it. -/
def startLine (w : RowPlace) : Nat := Csv.lineEnds (w.marks ++ w.before) + 1

/-- Whether a table is refused for the row at a place, with a number and a fault. -/
structure Refuses (w : RowPlace) (content : String) (number : Nat) (fault : RowFault) : Prop where
  /-- The place is one of the table. -/
  content_eq : content.toList = w.marks ++ w.before ++ w.opening :: w.behind
  marks_eq : ∀ mark ∈ w.marks, mark = '\ufeff'
  opens : (Csv.readerOf w.before).opens w.opening
  records_before : Csv.records w.before = w.header :: w.earlier
  records_eq : Csv.records (w.before ++ w.opening :: w.behind) =
    w.header :: w.earlier ++ w.record :: w.later
  /-- The rows before it have points, and it has the fault. -/
  earlier_read : ∀ r ∈ w.earlier, (point? w.columns r.fields).isSome
  fault_eq : rowFault? w.columns w.record.fields = some fault
  /-- The number counts records, which the idle line ends set apart from the lines. -/
  number_eq : number = (Csv.records w.before).length + 1
  startLine_eq : w.startLine = number + Csv.idleEnds w.before
  startLine_eq_iff : w.startLine = number ↔ Csv.idleEnds w.before = 0
  /-- The line that the record keeps counts line feeds. -/
  recordLine_eq : w.record.line = w.before.count '\n' + 1
  recordLine_eq_startLine : '\r' ∉ w.before → w.record.line = w.startLine

end RowPlace

/-- Take a table that is refused for a bad row. The row is a record behind the header and the
earlier rows, it starts behind the characters of these and at a character that opens a record. All
earlier rows have points, and the row has the fault that is reported.

The number that is reported counts the records up to the row. The line on which the row starts, by
the line ends before it, is that number and the idle line ends: those of empty lines and comments,
and those within quotes. So the number is that line exactly if there are none of these. Without
returns before the row, the line is also the one that the record keeps. -/
theorem bad_row_located {content : String} {line : Nat} {fault : RowFault}
    (h : parse content = .error (.badRow line fault)) :
    ∃ place : RowPlace, place.Refuses content line fault := by
  obtain ⟨header, rows, hrecords, hread⟩ := readRows_of_parse h
  obtain ⟨earlier, record, later, rfl, hearlier, hfault, hline⟩ := readRows_eq_badRow_iff.1 hread
  have hsplit : Csv.records (content.toList.dropWhile (· == '\ufeff')) =
      (header :: earlier) ++ record :: later := hrecords
  obtain ⟨before, c, rest, htext, hopens, hbefore, hstart⟩ := Csv.exists_start hsplit
  have hmarks : ∀ mark ∈ content.toList.takeWhile (· == '\ufeff'), mark = '\ufeff' :=
    fun mark hmark => beq_iff_eq.1 (List.all_eq_true.1 List.all_takeWhile mark hmark)
  have hcontent : content.toList =
      content.toList.takeWhile (· == '\ufeff') ++ before ++ c :: rest := by
    rw [List.append_assoc, ← htext, List.takeWhile_append_dropWhile]
  have hends := Csv.lineEnds_append (fun mark hmark => hmarks mark hmark ▸ rfl) before
  have hidle := Csv.lineEnds_eq (Csv.Reader.inRecord_of_opens hopens)
  have hnumber : line = (Csv.records before).length + 1 := by
    rw [hbefore, List.length_cons, hline]
    omega
  have hstartLine : Csv.lineEnds (content.toList.takeWhile (· == '\ufeff') ++ before) + 1 =
      line + Csv.idleEnds before := by
    omega
  refine ⟨⟨content.toList.takeWhile (· == '\ufeff'), before, c, rest, header, earlier, record,
    later⟩, ?_⟩
  exact {
    content_eq := hcontent
    marks_eq := hmarks
    opens := hopens
    records_before := hbefore
    records_eq := htext ▸ hsplit
    earlier_read := hearlier
    fault_eq := hfault
    number_eq := hnumber
    startLine_eq := hstartLine
    startLine_eq_iff := (Eq.congr_left hstartLine).trans Nat.add_eq_left
    recordLine_eq := hstart
    recordLine_eq_startLine := fun hreturn => by
      rw [RowPlace.startLine, hstart, hends, Csv.lineEnds_eq_count hreturn] }

/-- A table with a comment and an empty line behind its header, a price over two lines, and a row
that is too wide. -/
def annotatedTable : String :=
  "symbol,time,price\n# closing prints\n\nSPY,2013-10-07,\"1\n\"\nSPY,2013-10-08,1,2\n"

/-- The bad row starts on the sixth line and is reported at the third, since three line ends before
it are idle. -/
theorem annotated_row_misnumbered :
    parse annotatedTable = .error (.badRow 3 .shape) ∧
    ∃ before c rest, annotatedTable.toList = before ++ c :: rest ∧ (Csv.readerOf before).opens c ∧
      (Csv.records before).length = 2 ∧ Csv.lineEnds before + 1 = 6 ∧ Csv.idleEnds before = 3 := by
  have hrefused : parse annotatedTable = .error (.badRow 3 .shape) := by decide +kernel
  obtain ⟨⟨marks, before, c, rest, header, earlier, record, later⟩, hplace⟩ :=
    bad_row_located hrefused
  have hcontent := hplace.content_eq
  have hstart := hplace.startLine_eq
  have hline := hplace.recordLine_eq_startLine
  simp only [RowPlace.startLine] at hcontent hstart hline
  -- No mark stands in front of the table.
  have hnone : marks = [] := by
    cases marks with
    | nil => rfl
    | cons mark tail =>
        have hhead : annotatedTable.toList.head? = some 's' := by decide +kernel
        rw [hcontent, List.append_assoc, List.cons_append, List.head?_cons, Option.some.injEq,
          hplace.marks_eq mark List.mem_cons_self] at hhead
        exact absurd hhead (by decide)
  subst hnone
  rw [List.nil_append] at hcontent hstart hline
  have hcount : (Csv.records before).length = 2 := by
    have hnumber := hplace.number_eq
    simp only at hnumber
    omega
  have hreturn : '\r' ∉ before := fun hmem => by
    have hno : '\r' ∉ annotatedTable.toList := by decide +kernel
    exact hno (hcontent ▸ List.mem_append_left _ hmem)
  -- The row is the third record, which starts on the sixth line.
  have hlines : (Csv.records annotatedTable.toList).map Csv.Record.line = [1, 4, 6] := by
    decide +kernel
  obtain ⟨second, rfl⟩ : ∃ second, earlier = [second] := by
    rw [hplace.records_before, List.length_cons, Nat.succ.injEq, List.length_eq_one_iff] at hcount
    exact hcount
  rw [hcontent, hplace.records_eq] at hlines
  simp only [List.map_cons, List.cons_append, List.nil_append, List.cons.injEq] at hlines
  have hsix : record.line = 6 := hlines.2.2.1
  have hsame := hline hreturn
  exact ⟨hrefused, before, c, rest, hcontent, hplace.opens, hcount, by omega, by omega⟩

end PriceTable

end MarketReplay
