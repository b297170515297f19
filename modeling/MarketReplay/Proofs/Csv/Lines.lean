import Mathlib.Data.List.Basic
import MarketReplay.Csv.Record

/-!
# The lines of records

A reader opens a record at a character that neither ends a line nor starts a comment, and closes it
at a line end outside quotes. So every record of a text starts at a place of its own, behind the
records before it (`exists_start`), and of the line ends up to there each closes one of these
records or is idle: that of an empty line or a comment, or one within quotes (`lineEnds_eq`).
-/

namespace MarketReplay.Csv

/-! ### Line ends -/

/-- Whether a character is one of those that end lines. -/
def isLineEnd (c : Char) : Bool := c == '\r' || c == '\n'

/-- Whether a character ends a line. A return does, and a newline that follows no return. -/
def endsLine (previous c : Char) : Bool := c == '\r' || c == '\n' && previous != '\r'

/-- The line ends of what stands behind a character. -/
def lineEndsAfter (previous : Char) : List Char → Nat
  | [] => 0
  | c :: rest => (endsLine previous c).toNat + lineEndsAfter c rest

/-- The line ends of a text. -/
def lineEnds (cs : List Char) : Nat := lineEndsAfter '\n' cs

/-- Behind a character that is no return it does not matter which one it is. -/
theorem lineEndsAfter_eq_lineEnds {previous : Char} (h : previous ≠ '\r') (cs : List Char) :
    lineEndsAfter previous cs = lineEnds cs := by
  cases cs with
  | nil => rfl
  | cons c rest =>
      have hends : endsLine previous c = endsLine '\n' c := by
        unfold endsLine
        rw [bne_iff_ne.2 h]
        rfl
      rw [lineEnds, lineEndsAfter, lineEndsAfter, hends]

/-- Characters that end no line, in front of a text. -/
theorem lineEnds_append {marks : List Char} (h : ∀ mark ∈ marks, isLineEnd mark = false)
    (cs : List Char) : lineEnds (marks ++ cs) = lineEnds cs := by
  induction marks with
  | nil => rfl
  | cons mark rest ih =>
      obtain ⟨hmark, hrest⟩ := List.forall_mem_cons.1 h
      simp only [isLineEnd, Bool.or_eq_false_iff, beq_eq_false_iff_ne] at hmark
      have hends : endsLine '\n' mark = false := by simp [endsLine, hmark.1, hmark.2]
      rw [List.cons_append, lineEnds, lineEndsAfter, hends, lineEndsAfter_eq_lineEnds hmark.1,
        ih hrest]
      exact Nat.zero_add _

/-- Without returns the line ends are the newlines. -/
theorem lineEnds_eq_count {cs : List Char} (h : '\r' ∉ cs) : lineEnds cs = cs.count '\n' := by
  induction cs with
  | nil => rfl
  | cons c rest ih =>
      rw [List.mem_cons, not_or] at h
      obtain ⟨hc, hrest⟩ := h
      have hends : endsLine '\n' c = (c == '\n') := by
        simp [endsLine, Ne.symm hc]
      rw [lineEnds, lineEndsAfter, hends, lineEndsAfter_eq_lineEnds (Ne.symm hc), ih hrest,
        List.count_cons, Nat.add_comm]
      cases c == '\n' <;> rfl

/-- Whether a position is inside a record. -/
def Position.inRecord : Position → Bool
  | .recordStart | .afterReturn | .comment => false
  | .fieldStart | .plain | .quoted | .afterQuote => true

namespace Reader

/-- Whether a record is open. -/
def inRecord (r : Reader) : Bool := r.position.inRecord

/-- Whether a character opens a record: one outside records and comments that neither ends a line
nor starts a comment. -/
def opens (r : Reader) (c : Char) : Bool :=
  !r.inRecord && r.position != .comment && !isLineEnd c && c != '#'

/-- Whether a character closes the open record: one that ends a line, outside quotes. -/
def closes (r : Reader) (c : Char) : Bool :=
  r.inRecord && r.position != .quoted && isLineEnd c

/-- The line ends that close no record, of what a reader reads behind a character. -/
def idleEndsAfter (r : Reader) (previous : Char) : List Char → Nat
  | [] => 0
  | c :: rest =>
    (endsLine previous c && !r.closes c).toNat + (r.step c).idleEndsAfter c rest

end Reader

/-- The line ends of a text that close no record: those of empty lines and of comments, and those
within quotes. -/
def idleEnds (cs : List Char) : Nat := Reader.idleEndsAfter {} '\n' cs

namespace Reader

variable {r r' : Reader} {c : Char}

/-! ### One character -/

/-- The records of a reader with the open one closed. -/
def closed (r : Reader) : List Record := ⟨r.startLine, r.endField.fields.reverse⟩ :: r.records

/-- A reader after a character of the open record, which ends with it or not. -/
structure Within (r r' : Reader) (ending : Bool) : Prop where
  records_eq : r'.records = if ending then r.closed else r.records
  inRecord_eq : r'.inRecord = !ending
  startLine_eq : r'.startLine = r.startLine

/-- A reader after a character that opens a record, closes one or does neither. -/
structure Moves (r r' : Reader) (opening closing : Bool) : Prop where
  records_eq : r'.records = if closing then r.closed else r.records
  inRecord_eq : r'.inRecord = (opening || r.inRecord && !closing)
  startLine_eq : r'.startLine = if opening then r.line else r.startLine

/-- A character of the open record moves the reader on. -/
theorem Within.moves {ending : Bool} (h : Within r r' ending) (hr : r.inRecord) :
    Moves r r' false ending :=
  ⟨h.records_eq, by simp [h.inRecord_eq, hr], h.startLine_eq⟩

theorem stepPlain_within (r : Reader) (c : Char) : Within r (r.stepPlain c) (isLineEnd c) := by
  unfold stepPlain
  cases hend : isLineEnd c with
  | true =>
      have hcomma : c ≠ ',' := by
        rintro rfl
        cases hend
      rw [if_neg hcomma, if_pos (by simpa [isLineEnd] using hend)]
      refine ⟨rfl, ?_, rfl⟩
      unfold inRecord endLine
      by_cases hreturn : c = '\r' <;> simp [hreturn, Position.inRecord]
  | false =>
      split
      · exact ⟨rfl, rfl, rfl⟩
      · rw [if_neg (by simpa [isLineEnd] using hend)]
        exact ⟨rfl, rfl, rfl⟩

theorem stepField_within (r : Reader) (c : Char) : Within r (r.stepField c) (isLineEnd c) := by
  unfold stepField
  split
  · rename_i hquote
    subst hquote
    exact ⟨rfl, rfl, rfl⟩
  · exact stepPlain_within r c

/-- A character that moves a reader between records opens and closes none. -/
theorem moves_between (hr : r.inRecord = false) {position : Position}
    (hposition : position.inRecord = false) : Moves r { r with position } false false :=
  ⟨rfl, by rw [hr]; exact hposition, rfl⟩

/-- Outside records and comments, a character that does not end a line or start a comment opens a
record. -/
theorem stepStart_moves (hr : r.inRecord = false) (c : Char) :
    Moves r (r.stepStart c) (!isLineEnd c && c != '#') false := by
  unfold stepStart
  cases hend : isLineEnd c with
  | true =>
      rw [if_pos (by simpa [isLineEnd] using hend)]
      exact moves_between hr rfl
  | false =>
      rw [if_neg (by simpa [isLineEnd] using hend)]
      split
      · rename_i hcomment
        subst hcomment
        exact moves_between hr rfl
      · rename_i hcomment
        have hwithin := stepField_within { r with startLine := r.line } c
        have hopens : (!false && c != '#') = true := by simpa using hcomment
        rw [hend] at hwithin
        rw [hopens]
        exact ⟨hwithin.records_eq, hwithin.inRecord_eq, hwithin.startLine_eq⟩

/-- A character that is kept inside the open record leaves it open. -/
theorem moves_inside (hr : r.inRecord) {position : Position} (hposition : position.inRecord)
    (field : List Char) : Moves r { r with position, field } false false :=
  ⟨rfl, by rw [hr]; exact hposition, rfl⟩

theorem stepChar_moves (r : Reader) (c : Char) :
    Moves r (r.stepChar c) (r.opens c) (r.closes c) := by
  have hopen : r.inRecord = r.position.inRecord := rfl
  unfold stepChar opens closes
  rw [hopen]
  cases hposition : r.position with
  | recordStart =>
      rw [hposition] at hopen
      exact stepStart_moves hopen c
  | afterReturn =>
      rw [hposition] at hopen
      simp only
      split
      · rename_i hnewline
        subst hnewline
        exact moves_between hopen rfl
      · exact stepStart_moves hopen c
  | comment =>
      rw [hposition] at hopen
      simp only
      split
      · exact moves_between hopen rfl
      · exact ⟨rfl, by rw [hopen]; rfl, rfl⟩
  | fieldStart =>
      rw [hposition] at hopen
      exact (stepField_within r c).moves hopen
  | plain =>
      rw [hposition] at hopen
      exact (stepPlain_within r c).moves hopen
  | quoted =>
      rw [hposition] at hopen
      simp only
      split
      · exact moves_inside hopen rfl r.field
      · exact moves_inside hopen rfl (c :: r.field)
  | afterQuote =>
      rw [hposition] at hopen
      simp only
      split
      · rename_i hquote
        subst hquote
        exact moves_inside hopen rfl ('"' :: r.field)
      · exact (stepPlain_within r c).moves hopen

theorem step_records (r : Reader) (c : Char) :
    (r.step c).records = if r.closes c then r.closed else r.records := by
  rw [← (stepChar_moves r c).records_eq]
  unfold step
  split <;> rfl

theorem step_inRecord (r : Reader) (c : Char) :
    (r.step c).inRecord = (r.opens c || r.inRecord && !r.closes c) := by
  rw [← (stepChar_moves r c).inRecord_eq]
  unfold step
  split <;> rfl

theorem step_startLine (r : Reader) (c : Char) :
    (r.step c).startLine = if r.opens c then r.line else r.startLine := by
  rw [← (stepChar_moves r c).startLine_eq]
  unfold step
  split <;> rfl

/-- A reader counts newlines. -/
theorem step_line (r : Reader) (c : Char) :
    (r.step c).line = r.line + [c].count '\n' := by
  have hkept : (r.stepChar c).line = r.line := by
    unfold stepChar stepStart stepField stepPlain endLine keep endRecord endField
    repeat' split
    all_goals rfl
  unfold step
  split <;> simp_all

/-- A reader has counted the newlines of what it has read. -/
theorem foldl_line (r : Reader) (cs : List Char) :
    (cs.foldl step r).line = r.line + cs.count '\n' := by
  induction cs generalizing r with
  | nil => rfl
  | cons c rest ih =>
      rw [List.foldl_cons, ih, step_line, Nat.add_assoc, ← List.count_append, List.singleton_append]

/-! ### Where records start -/

/-- The records that a reader has opened. -/
def started (r : Reader) : Nat := r.records.length + r.inRecord.toNat

theorem inRecord_of_closes (h : r.closes c) : r.inRecord := by
  unfold closes at h
  simp only [Bool.and_eq_true] at h
  exact h.1.1

theorem inRecord_of_opens (h : r.opens c) : r.inRecord = false := by
  unfold opens at h
  simp only [Bool.and_eq_true, Bool.not_eq_true'] at h
  exact h.1.1.1

theorem not_opens_of_inRecord (h : r.inRecord) (c : Char) : r.opens c = false := by
  simp [opens, h]

/-- A character opens one record or none. -/
theorem started_step (r : Reader) (c : Char) :
    (r.step c).started = r.started + (r.opens c).toNat := by
  unfold started
  rw [step_records, step_inRecord]
  cases hclose : r.closes c with
  | true =>
      have hin := inRecord_of_closes hclose
      simp [hin, not_opens_of_inRecord hin, closed]
  | false =>
      cases hopen : r.opens c with
      | true => simp [inRecord_of_opens hopen]
      | false => simp

/-- At the end of the text the open record is closed. -/
theorem finish_eq (r : Reader) :
    r.finish = r.records.reverse ++
      if r.inRecord then [⟨r.startLine, r.endField.fields.reverse⟩] else [] := by
  unfold finish inRecord
  cases r.position <;> simp [Position.inRecord, endRecord]

/-- Between records the closed ones are all. -/
theorem finish_of_not_inRecord (h : r.inRecord = false) : r.finish = r.records.reverse := by
  rw [finish_eq, h]
  exact List.append_nil _

/-- The records of a text that ends are those opened. -/
theorem length_finish (r : Reader) : r.finish.length = r.started := by
  rw [finish_eq, List.length_append, List.length_reverse, started]
  cases r.inRecord <;> rfl

/-- The records that a reader has closed are the first ones of the text. -/
theorem records_isPrefix (r : Reader) (cs : List Char) :
    r.records.reverse <+: (cs.foldl step r).finish := by
  induction cs generalizing r with
  | nil =>
      rw [List.foldl_nil, finish_eq]
      exact List.prefix_append _ _
  | cons c rest ih =>
      have hstep : r.records.reverse <+: (r.step c).records.reverse := by
        rw [step_records]
        split
        · exact List.reverse_prefix.2 (List.suffix_cons _ _)
        · exact List.prefix_refl _
      exact hstep.trans (ih (r.step c))

/-- The open record follows the closed ones, and starts where it was opened. -/
theorem open_isPrefix (h : r.inRecord) (cs : List Char) :
    ∃ fields, r.records.reverse ++ [⟨r.startLine, fields⟩] <+: (cs.foldl step r).finish := by
  induction cs generalizing r with
  | nil =>
      have hfinish := finish_eq r
      rw [if_pos h] at hfinish
      exact ⟨r.endField.fields.reverse, hfinish ▸ List.prefix_refl _⟩
  | cons c rest ih =>
      cases hclose : r.closes c with
      | true =>
          refine ⟨r.endField.fields.reverse, ?_⟩
          have hprefix := records_isPrefix (r.step c) rest
          rwa [step_records, if_pos hclose, closed, List.reverse_cons] at hprefix
      | false =>
          have hopen := not_opens_of_inRecord h c
          have hstill : (r.step c).inRecord := by simp [step_inRecord, h, hclose]
          have hrest := ih hstill
          rwa [step_records, step_startLine, hclose, hopen] at hrest

/-- Where a reader opens its record of a number. -/
theorem exists_opening {k : Nat} {cs : List Char} (hlow : r.started ≤ k)
    (hhigh : k < (cs.foldl step r).started) :
    ∃ before c rest, cs = before ++ c :: rest ∧ (before.foldl step r).opens c ∧
      (before.foldl step r).records.length = k := by
  induction cs generalizing r with
  | nil => exact absurd hhigh (Nat.not_lt.2 hlow)
  | cons c rest ih =>
      by_cases hnext : (r.step c).started ≤ k
      · obtain ⟨before, d, rest', rfl, hopens, hlength⟩ := ih hnext hhigh
        exact ⟨c :: before, d, rest', rfl, hopens, hlength⟩
      · -- The number of records opened passes `k` here, so this character opens one.
        rw [started_step] at hnext
        have hopens : r.opens c := by
          by_contra hnot
          rw [Bool.not_eq_true] at hnot
          rw [hnot] at hnext
          exact hnext hlow
        refine ⟨[], c, rest, rfl, hopens, ?_⟩
        have hone : (r.opens c).toNat ≤ 1 := Bool.toNat_le _
        unfold started at hlow hnext
        rw [inRecord_of_opens hopens] at hlow hnext
        simp only [List.foldl_nil, Bool.toNat_false, Nat.add_zero] at *
        omega

/-! ### Line ends and records -/

/-- What can stand before the next character: a return has closed the open record unless it is in
quotes. -/
def Follows (r : Reader) (previous : Char) : Prop :=
  previous = '\r' → r.inRecord → r.position = .quoted

/-- A character closes a record only where it ends a line. -/
theorem endsLine_of_closes {previous : Char} (h : r.Follows previous) (hclose : r.closes c) :
    endsLine previous c := by
  have hin := inRecord_of_closes hclose
  unfold closes isLineEnd at hclose
  simp only [Bool.and_eq_true, bne_iff_ne, Bool.or_eq_true, beq_iff_eq] at hclose
  obtain ⟨⟨-, hquoted⟩, hend⟩ := hclose
  have hprevious : previous ≠ '\r' := fun hreturn => hquoted (h hreturn hin)
  simpa [endsLine, hprevious] using hend

theorem step_follows (r : Reader) (c : Char) : (r.step c).Follows c := by
  rintro rfl hin
  unfold inRecord at hin
  cases hposition : r.position <;>
    simp_all [step, stepChar, stepStart, stepField, stepPlain, endLine, keep, Position.inRecord]

/-- Each line end closes a record or is idle. -/
theorem lineEndsAfter_eq {previous : Char} (h : r.Follows previous) (cs : List Char) :
    lineEndsAfter previous cs + r.records.length =
      (cs.foldl step r).records.length + r.idleEndsAfter previous cs := by
  induction cs generalizing r previous with
  | nil => simp [lineEndsAfter, idleEndsAfter]
  | cons c rest ih =>
      have hrest := ih (step_follows r c)
      rw [lineEndsAfter, idleEndsAfter, List.foldl_cons]
      rw [step_records] at hrest
      cases hclose : r.closes c with
      | true =>
          have hends := endsLine_of_closes h hclose
          simp only [hclose, hends, closed, if_true, List.length_cons, Bool.not_true,
            Bool.and_false, Bool.toNat_true, Bool.toNat_false] at hrest ⊢
          omega
      | false =>
          simp only [hclose, Bool.false_eq_true, if_false, Bool.not_false, Bool.and_true] at hrest ⊢
          omega

end Reader

/-- The reader of a text that goes on. -/
def readerOf (cs : List Char) : Reader := cs.foldl Reader.step {}

/-- Every record of a text starts at one place: the characters up to there hold the records before
it, and the next one opens a record. -/
theorem exists_start {text : List Char} {earlier later : List Record} {record : Record}
    (h : records text = earlier ++ record :: later) :
    ∃ before c rest, text = before ++ c :: rest ∧ (readerOf before).opens c ∧
      records before = earlier ∧ record.line = before.count '\n' + 1 := by
  have hlength : earlier.length < (text.foldl Reader.step {}).started := by
    rw [← Reader.length_finish]
    exact (congrArg List.length h).symm ▸ by simp
  obtain ⟨before, c, rest, rfl, hopens, hcount⟩ : ∃ before c rest, text = before ++ c :: rest ∧
      (readerOf before).opens c ∧ (readerOf before).records.length = earlier.length :=
    Reader.exists_opening (Nat.zero_le _) hlength
  refine ⟨before, c, rest, rfl, hopens, ?_⟩
  have hbetween := Reader.inRecord_of_opens hopens
  have hbefore : records before = (readerOf before).records.reverse :=
    Reader.finish_of_not_inRecord hbetween
  -- The open record is the next one of the text, behind the ones closed by then.
  have hopened : ((readerOf before).step c).inRecord := by
    rw [Reader.step_inRecord, hopens, Bool.true_or]
  obtain ⟨fields, tail, hprefix⟩ := Reader.open_isPrefix hopened rest
  have hclose : (readerOf before).closes c = false := by
    rw [Reader.closes, hbetween]
    rfl
  rw [Reader.step_records, Reader.step_startLine, hclose, hopens] at hprefix
  have hsame : (readerOf before).records.reverse ++
      ⟨(readerOf before).line, fields⟩ :: tail = earlier ++ record :: later := by
    have htext : records (before ++ c :: rest) =
        (rest.foldl Reader.step ((readerOf before).step c)).finish := by
      rw [records, List.foldl_append]
      rfl
    rw [← h, htext, ← hprefix]
    simp
  obtain ⟨hearlier, hrecord⟩ := List.append_inj hsame (by rw [List.length_reverse, hcount])
  obtain ⟨rfl, -⟩ := List.cons.inj hrecord
  refine ⟨hbefore.trans hearlier, ?_⟩
  rw [readerOf, Reader.foldl_line, Nat.add_comm]

/-- Each line end of a text that does not break off inside a record closes one of its records or is
idle. -/
theorem lineEnds_eq {cs : List Char} (h : (readerOf cs).inRecord = false) :
    lineEnds cs = (records cs).length + idleEnds cs := by
  have hstart : Reader.Follows {} '\n' := nofun
  have hcount := Reader.lineEndsAfter_eq hstart cs
  have hlength : (records cs).length = (readerOf cs).records.length := by
    have hrecords : records cs = (readerOf cs).records.reverse := Reader.finish_of_not_inRecord h
    rw [hrecords, List.length_reverse]
  rw [hlength]
  exact hcount

end MarketReplay.Csv
