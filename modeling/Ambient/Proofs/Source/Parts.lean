/-
The lines of a source as parts.

Outside blocks and comments a line starts a part: a note, which is a blank line or a line comment, a
line of code, a comment, or an item. Where a part ends is said by its lines alone (`Part.Spans`), and
so is which lines stand outside (`Outside`): the first one, and the one behind each part. The scanner
is idle exactly there (`outside_iff`), and what waits for a declaration behind a part follows from the
part and from what waited before it (`Part.Spans.before`).
-/
import Ambient.Proofs.Source.Spans

namespace Ambient.Source

open Text (trim startsWith contains)

/-! ## Parts -/

/-- What the lines outside blocks and comments make up. -/
inductive Part where
  /-- A blank line or a line comment. -/
  | note
  | code
  | comment (doc : Bool)
  | item (opening : Opening)
deriving DecidableEq, Repr

/-- Whether a trimmed line is empty or a line comment. -/
def isNote (line : Text) : Bool :=
  line.isEmpty || startsWith line "//"

/-- Whether line `k` closes the comment that line `i` opens. On the opening line only what stands
behind the opening mark counts. -/
def closesComment (ls : List Text) (i k : Nat) : Bool :=
  contains (if k = i then (trim (lineAt ls i)).drop 2 else lineAt ls k) "*/"

/-- Line `i` opens a comment, and no line from it to the one before line `k` closes it. -/
structure CommentOpen (ls : List Text) (i k : Nat) : Prop where
  opens : startsWith (trim (lineAt ls i)) "/*" = true
  unclosed : ∀ j, i ≤ j → j < k → closesComment ls i j = false

/-- The lines `span.first`, …, `span.last` are such a part, if line `span.first` is outside. -/
inductive Part.Spans (ls : List Text) : Part → Span → Prop where
  | note {k : Nat} (lt : k < ls.length) (isNote : isNote (trim (lineAt ls k)) = true) :
      Spans ls .note ⟨k, k⟩
  | code {k : Nat} (lt : k < ls.length) (not_note : isNote (trim (lineAt ls k)) = false)
      (not_comment : startsWith (trim (lineAt ls k)) "/*" = false)
      (opens_none : opening? (trim (lineAt ls k)) = none) : Spans ls .code ⟨k, k⟩
  | comment {span : Span} (first_le_last : span.first ≤ span.last) (last_lt : span.last < ls.length)
      (opened : CommentOpen ls span.first span.last)
      (closes : closesComment ls span.first span.last = true) :
      Spans ls (.comment (startsWith (trim (lineAt ls span.first)) "/**")) span
  | item {span : Span} {opening : Opening} (first_le_last : span.first ≤ span.last)
      (last_lt : span.last < ls.length)
      (not_comment : startsWith (trim (lineAt ls span.first)) "/*" = false)
      (opens : opening? (trim (lineAt ls span.first)) = some opening)
      (goesOn : ∀ k, span.first ≤ k → k < span.last → GoesOn ls span.first k)
      (ends : ¬ GoesOn ls span.first span.last) : Spans ls (.item opening) span

/-- The part that a trimmed line outside starts. -/
def Part.ofLine (line : Text) : Part :=
  if startsWith line "/*" then .comment (startsWith line "/**")
  else
    match opening? line with
    | some opening => .item opening
    | none => if isNote line then .note else .code

/-- The lines outside blocks and comments, and the end of the source if it is outside. -/
inductive Outside (ls : List Text) : Nat → Prop where
  | start : Outside ls 0
  | behind {part : Part} {span : Span} (h : Outside ls span.first) (hpart : part.Spans ls span) :
      Outside ls (span.last + 1)

/-- The lines of a span, as they stand. -/
def Span.joined (ls : List Text) (span : Span) : Text :=
  Text.joinLines (between ls span.first (span.last + 1))

/-- What waits for a declaration behind a part with the given text. -/
def Part.pending (text : Text) (waiting : Option Text) : Part → Option Text
  | .note | .comment false => waiting
  | .comment true => some text
  | .code | .item _ => none

section Spans

variable {ls : List Text} {part : Part} {span : Span}

theorem Part.Spans.first_le_last (h : part.Spans ls span) : span.first ≤ span.last := by
  cases h with
  | note | code => exact Nat.le_refl _
  | comment hle | item hle => exact hle

theorem Part.Spans.last_lt (h : part.Spans ls span) : span.last < ls.length := by
  cases h with
  | note hlt | code hlt => exact hlt
  | comment _ hlt | item _ hlt => exact hlt

end Spans

/-! ## Lines at which the scanner is idle -/

section Idle

variable {ls : List Text} {k : Nat} {line : Text} {s : Scanner} {next : Option Text}

theorem getElem?_lineAt (hk : k < ls.length) : ls[k]? = some (lineAt ls k) := by
  rw [lineAt_eq (List.getElem?_eq_getElem hk)]
  exact List.getElem?_eq_getElem hk

/-- The state behind line `k`. -/
theorem before_lineAt (hk : k < ls.length) :
    Scanner.before {} ls (k + 1) =
      ((Scanner.before {} ls k).step (lineAt ls k) ls[k + 1]?).1 :=
  Scanner.before_succ {} (getElem?_lineAt hk)

theorem Scanner.eq_of_idle (h : s.phase = .idle) : s = { phase := .idle, pending := s.pending } := by
  cases s
  cases h
  rfl

theorem size_ge_length (t : Text) : t.length ≤ Text.size t := by
  induction t with
  | nil => exact Nat.le_refl _
  | cons c t ih =>
    have := c.utf8Size_pos
    simp only [List.length_cons, Text.size]
    omega

/-- The length that is asked for is that of the two marks. -/
theorem closesOnOpenLine_eq_contains (line : Text) :
    closesOnOpenLine line = contains (line.drop 2) "*/" := by
  rw [closesOnOpenLine]
  cases hcontains : contains (line.drop 2) "*/" with
  | false => simp
  | true =>
    obtain ⟨⟨a, b⟩, hab⟩ := Option.isSome_iff_exists.1 hcontains
    have hdrop := congrArg List.length (Text.eq_append_of_splitFirst? hab)
    have hmark : ("*/" : Text).length = 2 := rfl
    simp only [List.length_drop, List.length_append, hmark] at hdrop
    have := size_ge_length line
    have hsize : 3 < Text.size line := by omega
    simp [hsize]

theorem closesComment_self (ls : List Text) (i : Nat) :
    closesComment ls i i = closesOnOpenLine (trim (lineAt ls i)) := by
  rw [closesComment, if_pos rfl, closesOnOpenLine_eq_contains]

theorem closesComment_of_lt {i : Nat} (h : i < k) :
    closesComment ls i k = contains (lineAt ls k) "*/" := by
  rw [closesComment, if_neg (Nat.ne_of_gt h)]

theorem step_comment (hidle : s.phase = .idle) (hopens : startsWith (trim line) "/*" = true) :
    (s.step line next).1 =
      if startsWith (trim line) "/**" = true then
        if closesOnOpenLine (trim line) = true then { phase := .idle, pending := some line }
        else { phase := .comment (some [line]), pending := none }
      else if closesOnOpenLine (trim line) = true then s else { s with phase := .comment none } := by
  simp only [Scanner.step, hidle, Scanner.idle, hopens, if_true]
  split <;> split <;> rfl

theorem step_line (hidle : s.phase = .idle) (hcomment : startsWith (trim line) "/*" = false)
    (hopening : opening? (trim line) = none) :
    (s.step line next).1 = if isNote (trim line) = true then s else { s with pending := none } := by
  have hdoc : startsWith (trim line) "/**" = false := by
    rw [Bool.eq_false_iff] at hcomment ⊢
    exact fun h => hcomment (Scanner.startsWith_comment_of_doc h)
  simp only [Scanner.step, hidle, Scanner.idle, hdoc, hcomment, hopening, isNote, Bool.false_eq_true,
    if_false]
  split <;> rfl

theorem step_inComment {doc : Option (List Text)} (h : s.phase = .comment doc) :
    (s.step line next).1 =
      if contains line "*/" = true then
        { phase := .idle, pending := ((doc.map (· ++ [line])).map Text.joinLines).or s.pending }
      else { s with phase := .comment (doc.map (· ++ [line])) } := by
  simp only [Scanner.step, h, Scanner.inComment]

end Idle

/-! ## The scanner over a part -/

theorem of_isNote {line : Text} (h : isNote line = true) :
    startsWith line "/*" = false ∧ opening? line = none := by
  simp only [isNote, Bool.or_eq_true, List.isEmpty_iff] at h
  rcases h with rfl | h
  · exact ⟨rfl, rfl⟩
  · rw [startsWith, List.isPrefixOf_iff_prefix] at h
    obtain ⟨rest, rfl⟩ := h
    exact ⟨rfl, rfl⟩

/-- The phase and the pending comment in a comment that line `i` opens, before line `k`. -/
theorem before_of_commentOpen {ls : List Text} {i k : Nat} (hidle : phaseAt ls i = .idle)
    (hopen : CommentOpen ls i k) (hik : i < k) (hk : k ≤ ls.length) :
    Scanner.before {} ls k =
      if startsWith (trim (lineAt ls i)) "/**" = true then
        { phase := .comment (some (between ls i k)), pending := none }
      else { phase := .comment none, pending := (Scanner.before {} ls i).pending } := by
  induction hik with
  | refl =>
    have hclosed : closesOnOpenLine (trim (lineAt ls i)) = false := by
      rw [← closesComment_self]
      exact hopen.unclosed i (Nat.le_refl i) (Nat.lt_succ_self i)
    have hlines : between ls i (i + 1) = [lineAt ls i] := by
      rw [between_succ (getElem?_lineAt hk) (Nat.le_refl i), between_self, List.nil_append]
    rw [before_lineAt hk, step_comment hidle hopen.opens, hclosed, hlines]
    simp
  | @step k hik ih =>
    have hclosed : contains (lineAt ls k) "*/" = false := by
      rw [← closesComment_of_lt hik]
      exact hopen.unclosed k (Nat.le_of_succ_le hik) (Nat.lt_succ_self k)
    have hbefore := ih ⟨hopen.opens, fun j hij hj => hopen.unclosed j hij (by omega)⟩ (by omega)
    have hlines := between_succ (getElem?_lineAt hk) (Nat.le_of_succ_le hik)
    rw [before_lineAt hk, hbefore]
    split
    · rw [step_inComment rfl, hclosed, hlines]
      rfl
    · rw [step_inComment rfl, hclosed]
      rfl

section Over

variable {ls : List Text} {part : Part} {span : Span} {k : Nat}

/-- In an item that line `i` opens, line `k` goes into its block, and what waited before it waits. -/
theorem taking_of_goesOn {i : Nat} {opening : Opening} (hidle : phaseAt ls i = .idle)
    (hcomment : startsWith (trim (lineAt ls i)) "/*" = false)
    (hopening : opening? (trim (lineAt ls i)) = some opening) (hik : i ≤ k) (hk : k < ls.length)
    (hon : ∀ j, i ≤ j → j < k → GoesOn ls i j) :
    ∃ b, (Scanner.before {} ls k).taking? (lineAt ls k) = some b ∧ Held ls i k b ∧
      (Scanner.before {} ls k).pending = (Scanner.before {} ls i).pending := by
  induction hik with
  | refl =>
    have hphase : (Scanner.before {} ls i).phase = .idle := hidle
    have hnot : ¬ startsWith (trim (lineAt ls i)) "/*" = true := Bool.eq_false_iff.1 hcomment
    refine ⟨{ opening }, ?_, held_of_opening (getElem?_lineAt hk) hidle hnot hopening, rfl⟩
    simp only [Scanner.taking?, hphase, if_neg hnot, hopening, Option.map_some]
  | @step k hik ih =>
    have hik : i ≤ k := hik
    have hlt : k < ls.length := Nat.lt_of_succ_lt hk
    obtain ⟨b, htaking, hheld, hpending⟩ := ih hlt fun j hij hj => hon j hij (by omega)
    have hline := getElem?_lineAt hlt
    have hgoes := hon k hik (Nat.lt_succ_self k)
    have hbefore := before_lineAt hlt
    rw [Scanner.step_of_taking htaking,
      Scanner.extend_of_goesOn ((hheld.goesOn_push hline).2 hgoes)] at hbefore
    refine ⟨b.push (lineAt ls k), ?_, hheld.push hline hgoes ?_, ?_⟩
    · rw [hbefore, Scanner.taking?]
    · rw [phaseAt, hbefore]
    · rw [hbefore]
      exact hpending

/-- **What a part leaves.** Behind a part that starts outside, the scanner is idle, and what waits
there is decided by the part and by what waited before it. -/
theorem Part.Spans.before (h : part.Spans ls span) (hidle : phaseAt ls span.first = .idle) :
    Scanner.before {} ls (span.last + 1) =
      { phase := .idle,
        pending := part.pending (span.joined ls) (Scanner.before {} ls span.first).pending } := by
  cases h with
  | note hlt hnote =>
    obtain ⟨hcomment, hopening⟩ := of_isNote hnote
    rw [before_lineAt hlt, step_line hidle hcomment hopening, if_pos hnote]
    exact Scanner.eq_of_idle hidle
  | code hlt hnote hcomment hopening =>
    rw [before_lineAt hlt, step_line hidle hcomment hopening, hnote, Scanner.eq_of_idle hidle]
    rfl
  | comment hle hlt hopen hcloses =>
    rcases Nat.eq_or_lt_of_le hle with heq | hlt'
    · -- the comment closes on the line that opens it
      rw [← heq] at hlt hcloses ⊢
      rw [closesComment_self] at hcloses
      have hlines : span.joined ls = lineAt ls span.first := by
        rw [Span.joined, ← heq, between_succ (getElem?_lineAt hlt) (Nat.le_refl _), between_self]
        simp [Text.joinLines]
      rw [before_lineAt hlt, step_comment hidle hopen.opens, if_pos hcloses, if_pos hcloses, hlines]
      cases startsWith (trim (lineAt ls span.first)) "/**" with
      | true => rfl
      | false => exact Scanner.eq_of_idle hidle
    · rw [closesComment_of_lt hlt'] at hcloses
      have hlines := between_succ (getElem?_lineAt hlt) hle
      rw [before_lineAt hlt, before_of_commentOpen hidle hopen hlt' (Nat.le_of_lt hlt)]
      cases startsWith (trim (lineAt ls span.first)) "/**" with
      | true =>
        rw [if_pos rfl, step_inComment rfl, if_pos hcloses, Span.joined, hlines]
        rfl
      | false =>
        rw [if_neg Bool.false_ne_true, step_inComment rfl, if_pos hcloses]
        rfl
  | item hle hlt hcomment hopening hon hends =>
    obtain ⟨b, htaking, hheld, -⟩ := taking_of_goesOn hidle hcomment hopening hle hlt hon
    have hoff := mt (hheld.goesOn_push (getElem?_lineAt hlt)).1 hends
    rw [before_lineAt hlt, Scanner.step_of_taking htaking, Scanner.extend_of_not_goesOn hoff]
    rfl

/-- Behind its first line, no line of a part is outside. -/
theorem Part.Spans.phaseAt_ne (h : part.Spans ls span) (hidle : phaseAt ls span.first = .idle)
    (hfirst : span.first < k) (hlast : k ≤ span.last) : phaseAt ls k ≠ .idle := by
  cases h with
  | note | code =>
    dsimp only at hfirst hlast
    omega
  | comment hle hlt hopen hcloses =>
    have hopen : CommentOpen ls span.first k :=
      ⟨hopen.opens, fun j hij hj => hopen.unclosed j hij (by omega)⟩
    rw [phaseAt, before_of_commentOpen hidle hopen hfirst (by omega)]
    split <;> simp
  | item hle hlt hcomment hopening hon hends =>
    obtain ⟨b, -, hheld, -⟩ := taking_of_goesOn hidle hcomment hopening (Nat.le_of_lt hfirst)
      (by omega) fun j hij hj => hon j hij (by omega)
    obtain ⟨b, hb⟩ := hheld.inside k hfirst (Nat.le_refl k)
    rw [hb]
    simp

end Over

/-! ## The lines outside -/

/-- What a line can do: end a part, or leave a comment or a block open. -/
inductive Turn (ls : List Text) (k : Nat) : Prop
  | ends {part : Part} (span : Span) (last : span.last = k) (idle : phaseAt ls span.first = .idle)
      (spans : part.Spans ls span)
  | inComment {i : Nat} (le : i ≤ k) (idle : phaseAt ls i = .idle) (opened : CommentOpen ls i (k + 1))
  | inBlock {b : OpenBlock} (phase : phaseAt ls (k + 1) = .block b)

section Outside

variable {ls : List Text} {part part' : Part} {span span' : Span} {k : Nat}

theorem turn_of_taking {b : OpenBlock} (hk : k < ls.length)
    (h : (Scanner.before {} ls k).taking? (lineAt ls k) = some b) : Turn ls k := by
  have hline := getElem?_lineAt hk
  have hheld := held_of_taking hline h
  by_cases hon : GoesOn ls (k - b.lines.length) k
  · refine .inBlock (b := b.push (lineAt ls k)) ?_
    rw [phaseAt, before_lineAt hk, Scanner.step_of_taking h,
      Scanner.extend_of_goesOn ((hheld.goesOn_push hline).2 hon)]
  · exact .ends ⟨k - b.lines.length, k⟩ rfl hheld.idle
      (.item hheld.start_le hk (Bool.eq_false_iff.2 hheld.not_comment) hheld.opening hheld.goesOn hon)

theorem turn_of_commentOpen {i : Nat} (hik : i ≤ k) (hk : k < ls.length)
    (hidle : phaseAt ls i = .idle) (hopen : CommentOpen ls i k) : Turn ls k := by
  cases hcloses : closesComment ls i k with
  | true => exact .ends ⟨i, k⟩ rfl hidle (.comment hik hk hopen hcloses)
  | false =>
    refine .inComment hik hidle ⟨hopen.opens, fun j hij hj => ?_⟩
    rcases Nat.lt_succ_iff_lt_or_eq.1 hj with hj | rfl
    · exact hopen.unclosed j hij hj
    · exact hcloses

theorem turn_of_idle (hk : k < ls.length) (hidle : phaseAt ls k = .idle) : Turn ls k := by
  have hphase : (Scanner.before {} ls k).phase = .idle := hidle
  cases hcomment : startsWith (trim (lineAt ls k)) "/*" with
  | true =>
    exact turn_of_commentOpen (Nat.le_refl k) hk hidle ⟨hcomment, fun j hkj hj => by omega⟩
  | false =>
    cases hopening : opening? (trim (lineAt ls k)) with
    | some opening =>
      refine turn_of_taking (b := { opening }) hk ?_
      simp only [Scanner.taking?, hphase, hcomment, hopening, Bool.false_eq_true, if_false,
        Option.map_some]
    | none =>
      cases hnote : isNote (trim (lineAt ls k)) with
      | true => exact .ends ⟨k, k⟩ rfl hidle (.note hk hnote)
      | false => exact .ends ⟨k, k⟩ rfl hidle (.code hk hnote hcomment hopening)

/-- **Every line** ends a part that starts outside, or leaves a comment or a block open. -/
theorem turn (hk : k < ls.length) : Turn ls k := by
  induction k with
  | zero => exact turn_of_idle hk (by cases ls <;> rfl)
  | succ k ih =>
    cases ih (Nat.lt_of_succ_lt hk) with
    | ends span hlast hidle hspans =>
      refine turn_of_idle hk ?_
      rw [phaseAt, ← hlast, hspans.before hidle]
    | inComment hle hidle hopen => exact turn_of_commentOpen (by omega) hk hidle hopen
    | @inBlock b hphase =>
      have hphase : (Scanner.before {} ls (k + 1)).phase = .block b := hphase
      exact turn_of_taking (b := b) hk (by rw [Scanner.taking?, hphase])

theorem Outside.phaseAt_eq (h : Outside ls k) : phaseAt ls k = .idle := by
  induction h with
  | start => cases ls <;> rfl
  | behind _ hpart ih => rw [phaseAt, hpart.before ih]

/-- **The scanner is idle exactly at the lines outside.** -/
theorem outside_iff (hk : k ≤ ls.length) : Outside ls k ↔ phaseAt ls k = .idle := by
  refine ⟨Outside.phaseAt_eq, fun hidle => ?_⟩
  induction k using Nat.strongRecOn with
  | ind k ih =>
    cases k with
    | zero => exact .start
    | succ k =>
      cases turn hk with
      | ends span hlast hfirst hspans =>
        subst hlast
        have hle := hspans.first_le_last
        exact .behind (ih span.first (by omega) (by omega) hfirst) hspans
      | @inComment i hle hfirst hopen =>
        rw [phaseAt, before_of_commentOpen hfirst hopen (by omega) hk] at hidle
        split at hidle <;> cases hidle
      | inBlock hphase =>
        rw [hphase] at hidle
        cases hidle

theorem Part.Spans.eq_ofLine (h : part.Spans ls span) :
    part = .ofLine (trim (lineAt ls span.first)) := by
  cases h with
  | note hlt hnote =>
    obtain ⟨hcomment, hopening⟩ := of_isNote hnote
    simp only [ofLine, hcomment, hopening, hnote, Bool.false_eq_true, if_false, if_true]
  | code hlt hnote hcomment hopening =>
    simp only [ofLine, hcomment, hopening, hnote, Bool.false_eq_true, if_false]
  | comment hle hlt hopen hcloses => rw [ofLine, if_pos hopen.opens]
  | item hle hlt hcomment hopening =>
    simp only [ofLine, hcomment, hopening, Bool.false_eq_true, if_false]

/-- A part is known by its first line. -/
theorem Part.Spans.unique (h : part.Spans ls span) (h' : part'.Spans ls span')
    (hidle : phaseAt ls span.first = .idle) (hfirst : span.first = span'.first) :
    part = part' ∧ span = span' := by
  -- neither ends inside the other, for the scanner is idle behind each
  have hlast : span.last = span'.last := by
    have hidle' : phaseAt ls span'.first = .idle := hfirst ▸ hidle
    have hbehind : phaseAt ls (span.last + 1) = .idle := by rw [phaseAt, h.before hidle]
    have hbehind' : phaseAt ls (span'.last + 1) = .idle := by rw [phaseAt, h'.before hidle']
    have hle := h.first_le_last
    have hle' := h'.first_le_last
    rcases Nat.lt_trichotomy span.last span'.last with hlt | heq | hlt
    · exact absurd hbehind (h'.phaseAt_ne hidle' (by omega) hlt)
    · exact heq
    · exact absurd hbehind' (h.phaseAt_ne hidle (by omega) hlt)
  refine ⟨?_, ?_⟩
  · rw [h.eq_ofLine, h'.eq_ofLine, hfirst]
  · cases span
    cases span'
    simp_all

/-- Two parts that start outside are the same, or one stands before the other. -/
theorem Part.Spans.disjoint (h : part.Spans ls span) (h' : part'.Spans ls span')
    (hout : Outside ls span.first) (hout' : Outside ls span'.first) :
    (part = part' ∧ span = span') ∨ span.last < span'.first ∨ span'.last < span.first := by
  have hidle := hout.phaseAt_eq
  have hidle' := hout'.phaseAt_eq
  rcases Nat.lt_trichotomy span.first span'.first with hlt | heq | hlt
  · by_cases hlast : span'.first ≤ span.last
    · exact absurd hidle' (h.phaseAt_ne hidle hlt hlast)
    · exact .inr (.inl (by omega))
  · exact .inl (h.unique h' hidle heq)
  · by_cases hlast : span.first ≤ span'.last
    · exact absurd hidle (h'.phaseAt_ne hidle' hlt hlast)
    · exact .inr (.inr (by omega))

end Outside

end Ambient.Source
