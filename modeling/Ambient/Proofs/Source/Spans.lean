/-
The scan of a source as spans of its lines.

Every item of a scan stands for a span of lines (`Scanner.located`). The spans follow each other
without overlap, each opens at a line that the scanner reaches outside blocks and comments, and each
ends at the first line after which the block does not go on (`scan_partition`). How far a block
reaches is said by `GoesOn`, in terms of the lines from its first one on and not of the scanner.
-/
import Ambient.Source.Scan

namespace Ambient.Source

open Code (Carry bracketDelta)
open Text (trim startsWith)

/-! ## Lines -/

/-- Line `k`, counted from zero. -/
def lineAt (ls : List Text) (k : Nat) : Text :=
  ls.getD k []

/-- The lines `i`, …, `k - 1`. -/
def between (ls : List Text) (i k : Nat) : List Text :=
  (ls.take k).drop i

/-- What the line after some lines starts in. -/
def carryOver (ls : List Text) : Carry :=
  ls.foldl Carry.after .code

/-- How much deeper the brackets nest after some lines, of which the first starts in `carry`. -/
def depthOver (carry : Carry) : List Text → Int
  | [] => 0
  | line :: rest => bracketDelta carry line + depthOver (carry.after line) rest

/-- Whether a block from line `i` on is not complete with line `k`: a bracket is open, a template or
a comment is open, or line `k` and the one after it belong together. -/
def GoesOn (ls : List Text) (i k : Nat) : Prop :=
  0 < depthOver .code (between ls i (k + 1)) ∨ carryOver (between ls i (k + 1)) ≠ .code ∨
    continues (lineAt ls k) ls[k + 1]? = true

theorem lineAt_eq {ls : List Text} {k : Nat} {line : Text} (h : ls[k]? = some line) :
    lineAt ls k = line := by
  simp [lineAt, h]

theorem between_succ {ls : List Text} {i k : Nat} {line : Text} (h : ls[k]? = some line)
    (hi : i ≤ k) : between ls i (k + 1) = between ls i k ++ [line] := by
  have hk : k < ls.length := (List.getElem?_eq_some_iff.1 h).1
  rw [between, List.take_add_one, h, List.drop_append_of_le_length (by simp; omega)]
  rfl

theorem between_self (ls : List Text) (k : Nat) : between ls k k = [] := by
  simp [between]

theorem length_between_le (ls : List Text) (i k : Nat) : (between ls i k).length ≤ k := by
  rw [between, List.length_drop, List.length_take]
  omega

theorem carryOver_append (ls : List Text) (line : Text) :
    carryOver (ls ++ [line]) = (carryOver ls).after line := by
  simp [carryOver]

theorem depthOver_append (carry : Carry) (ls : List Text) (line : Text) :
    depthOver carry (ls ++ [line]) =
      depthOver carry ls + bracketDelta (ls.foldl Carry.after carry) line := by
  induction ls generalizing carry with
  | nil => simp [depthOver]
  | cons x ls ih =>
    simp only [List.cons_append, depthOver, List.foldl_cons]
    rw [ih]
    omega

/-! ## States -/

/-- The state before line `k`, for a scan that starts in `s`. -/
def Scanner.before (s : Scanner) : List Text → Nat → Scanner
  | line :: rest, k + 1 => (s.step line rest.head?).1.before rest k
  | _, _ => s

/-- What line `k` of a source stands in. -/
def phaseAt (ls : List Text) (k : Nat) : Phase :=
  (Scanner.before {} ls k).phase

theorem Scanner.before_succ {ls : List Text} {k : Nat} {line : Text} (s : Scanner)
    (h : ls[k]? = some line) :
    s.before ls (k + 1) = ((s.before ls k).step line ls[k + 1]?).1 := by
  induction ls generalizing s k with
  | nil => simp at h
  | cons x rest ih =>
    cases k with
    | zero =>
      cases Option.some.inj h
      simp [before, List.head?_eq_getElem?]
    | succ k => exact ih (s.step x rest.head?).1 h

/-- The block that a line goes into: the open one, or one that the line opens. -/
def Scanner.taking? (s : Scanner) (line : Text) : Option OpenBlock :=
  match s.phase with
  | .block b => some b
  | .comment _ => none
  | .idle =>
    if startsWith (trim line) "/*" then none
    else (opening? (trim line)).map fun opening => { opening }

namespace Scanner

variable {s : Scanner} {line : Text} {next : Option Text} {b : OpenBlock}

theorem startsWith_comment_of_doc {t : Text} (h : startsWith t "/**" = true) :
    startsWith t "/*" = true := by
  simp only [startsWith, List.isPrefixOf_iff_prefix] at h ⊢
  exact List.IsPrefix.trans ⟨['*'], rfl⟩ h

theorem step_of_taking (h : s.taking? line = some b) : s.step line next = s.extend b line next := by
  cases hphase : s.phase with
  | block b' =>
    simp only [taking?, hphase, Option.some.injEq] at h
    simp only [step, hphase, h]
  | comment doc => simp [taking?, hphase] at h
  | idle =>
    simp only [taking?, hphase] at h
    split at h
    · cases h
    · rename_i hcomment
      obtain ⟨opening, hopening, rfl⟩ := Option.map_eq_some_iff.1 h
      have hdoc : ¬ startsWith (trim line) "/**" = true :=
        fun hdoc => hcomment (startsWith_comment_of_doc hdoc)
      simp only [step, hphase, idle, if_neg hdoc, if_neg hcomment, hopening]

/-- A line that goes into no block makes no item and leaves no block open. -/
theorem step_of_not_taking (h : s.taking? line = none) :
    (s.step line next).2 = none ∧ ∀ b, (s.step line next).1.phase ≠ .block b := by
  cases hphase : s.phase with
  | block b => simp [taking?, hphase] at h
  | comment doc =>
    simp only [step, hphase, inComment]
    split <;> simp
  | idle =>
    simp only [taking?, hphase] at h
    simp only [step, hphase, idle]
    split
    · split <;> simp
    · split at h
      · rename_i hcomment
        rw [if_pos hcomment]
        split <;> simp [hphase]
      · rename_i hcomment
        rw [if_neg hcomment, Option.map_eq_none_iff.1 h]
        dsimp only
        split <;> simp [hphase]

theorem extend_of_goesOn (h : (b.push line).goesOn line next = true) :
    s.extend b line next = ({ s with phase := .block (b.push line) }, none) := by
  simp [extend, h]

theorem extend_of_not_goesOn (h : ¬ (b.push line).goesOn line next = true) :
    s.extend b line next = ({ phase := .idle, pending := none }, some (s.item (b.push line))) := by
  simp [extend, h]

end Scanner

/-! ## Open blocks -/

theorem OpenBlock.length_push (b : OpenBlock) (line : Text) :
    (b.push line).lines.length = b.lines.length + 1 :=
  List.length_append

/-- The open block `b` before line `k` has taken in the lines from `start` on, and goes on after
each. -/
structure Held (ls : List Text) (start k : Nat) (b : OpenBlock) : Prop where
  start_le : start ≤ k
  idle : phaseAt ls start = .idle
  not_comment : ¬ startsWith (trim (lineAt ls start)) "/*" = true
  opening : opening? (trim (lineAt ls start)) = some b.opening
  lines : b.lines = between ls start k
  depth : b.depth = depthOver .code b.lines
  carry : b.carry = carryOver b.lines
  inside : ∀ j, start < j → j ≤ k → ∃ b, phaseAt ls j = .block b
  goesOn : ∀ j, start ≤ j → j < k → GoesOn ls start j

section Held

variable {ls : List Text} {start k : Nat} {line : Text} {b : OpenBlock}

theorem Held.length_le (h : Held ls start k b) : b.lines.length ≤ k := by
  rw [h.lines]
  exact length_between_le ls start k

/-! Lines, depth and carry of a block say the same after one more line. -/

theorem Held.lines_push (h : Held ls start k b) (hline : ls[k]? = some line) :
    (b.push line).lines = between ls start (k + 1) := by
  rw [between_succ hline h.start_le, ← h.lines]
  rfl

theorem Held.depth_push (h : Held ls start k b) :
    (b.push line).depth = depthOver .code (b.push line).lines := by
  have hcarry : b.carry = b.lines.foldl Carry.after .code := h.carry
  simp only [OpenBlock.push]
  rw [depthOver_append, h.depth, hcarry]

theorem Held.carry_push (h : Held ls start k b) :
    (b.push line).carry = carryOver (b.push line).lines := by
  simp only [OpenBlock.push]
  rw [carryOver_append, h.carry]

theorem Held.goesOn_push (h : Held ls start k b) (hline : ls[k]? = some line) :
    (b.push line).goesOn line ls[k + 1]? = true ↔ GoesOn ls start k := by
  rw [GoesOn, lineAt_eq hline, ← h.lines_push hline, ← h.depth_push, ← h.carry_push]
  simp [OpenBlock.goesOn, Carry.isCode, or_assoc]

theorem Held.push (h : Held ls start k b) (hline : ls[k]? = some line) (hon : GoesOn ls start k)
    (hphase : phaseAt ls (k + 1) = .block (b.push line)) : Held ls start (k + 1) (b.push line) where
  start_le := Nat.le_succ_of_le h.start_le
  idle := h.idle
  not_comment := h.not_comment
  opening := h.opening
  lines := h.lines_push hline
  depth := h.depth_push
  carry := h.carry_push
  inside j hstart hj := by
    rcases Nat.lt_or_ge k j with hlt | hle
    · obtain rfl : j = k + 1 := by omega
      exact ⟨_, hphase⟩
    · exact h.inside j hstart hle
  goesOn j hstart hj := by
    rcases Nat.lt_or_ge j k with hlt | hle
    · exact h.goesOn j hstart hlt
    · obtain rfl : j = k := by omega
      exact hon

/-- A block that line `k` opens holds no line yet. -/
theorem held_of_opening {opening : Opening} (hline : ls[k]? = some line)
    (hphase : phaseAt ls k = .idle) (hcomment : ¬ startsWith (trim line) "/*" = true)
    (hopening : opening? (trim line) = some opening) : Held ls k k { opening } where
  start_le := Nat.le_refl k
  idle := hphase
  not_comment := by rwa [lineAt_eq hline]
  opening := by rwa [lineAt_eq hline]
  lines := (between_self ls k).symm
  depth := rfl
  carry := rfl
  inside j hstart hj := by omega
  goesOn j hstart hj := by omega

theorem held_of_taking_of (hopen : ∀ b, phaseAt ls k = .block b → Held ls (k - b.lines.length) k b)
    (hline : ls[k]? = some line) (h : (Scanner.before {} ls k).taking? line = some b) :
    Held ls (k - b.lines.length) k b := by
  cases hphase : (Scanner.before {} ls k).phase with
  | block b' =>
    simp only [Scanner.taking?, hphase, Option.some.injEq] at h
    exact h ▸ hopen b' hphase
  | comment doc => simp [Scanner.taking?, hphase] at h
  | idle =>
    simp only [Scanner.taking?, hphase] at h
    split at h
    · cases h
    · rename_i hcomment
      obtain ⟨opening, hopening, rfl⟩ := Option.map_eq_some_iff.1 h
      exact held_of_opening hline hphase hcomment hopening

/-- **The block that is open before a line** holds the lines from the one that opened it on. -/
theorem held_of_phaseAt (hk : k ≤ ls.length) (h : phaseAt ls k = .block b) :
    Held ls (k - b.lines.length) k b ∧ 0 < b.lines.length := by
  induction k generalizing b with
  | zero =>
    cases ls <;> simp [phaseAt, Scanner.before] at h
  | succ k ih =>
    have hline : ls[k]? = some ls[k] := List.getElem?_eq_getElem hk
    have hbefore := Scanner.before_succ {} hline
    rw [phaseAt, hbefore] at h
    cases htaking : (Scanner.before {} ls k).taking? ls[k] with
    | none => exact absurd h ((Scanner.step_of_not_taking htaking).2 b)
    | some b₀ =>
      have hheld := held_of_taking_of (fun b hb => (ih (Nat.le_of_succ_le hk) hb).1) hline htaking
      rw [Scanner.step_of_taking htaking] at h hbefore
      by_cases hon : (b₀.push ls[k]).goesOn ls[k] ls[k + 1]? = true
      · rw [Scanner.extend_of_goesOn hon] at h hbefore
        obtain rfl : b₀.push ls[k] = b := Phase.block.inj h
        rw [OpenBlock.length_push, Nat.add_sub_add_right]
        refine ⟨hheld.push hline ((hheld.goesOn_push hline).1 hon) ?_, Nat.succ_pos _⟩
        rw [phaseAt, hbefore]
      · rw [Scanner.extend_of_not_goesOn hon] at h
        cases h

theorem held_of_taking (hline : ls[k]? = some line)
    (h : (Scanner.before {} ls k).taking? line = some b) : Held ls (k - b.lines.length) k b :=
  have hk : k ≤ ls.length := Nat.le_of_lt (List.getElem?_eq_some_iff.1 hline).1
  held_of_taking_of (fun _ hb => (held_of_phaseAt hk hb).1) hline h

end Held

/-! ## Spans -/

/-- The lines `first`, …, `last`. -/
structure Span where
  first : Nat
  last : Nat
deriving DecidableEq, Repr

namespace Span

def text (ls : List Text) (span : Span) : Text :=
  trim (Text.joinLines (between ls span.first (span.last + 1)))

/-- What the first line opens. -/
def opening? (ls : List Text) (span : Span) : Option Opening :=
  Source.opening? (trim (lineAt ls span.first))

end Span

def Item.opening : Item → Opening
  | .importStatement _ => .importStatement
  | .declaration _ => .declaration

def Item.body : Item → Text
  | .importStatement body => body
  | .declaration block => block.body

/-- The number of lines that an open block holds. -/
def Phase.held : Phase → Nat
  | .block b => b.lines.length
  | _ => 0

/-- The items of the lines from line `k` on, each with its span. -/
def Scanner.located (s : Scanner) (k : Nat) : List Text → List (Span × Item)
  | [] =>
    match s.phase with
    | .block b => [(⟨k - b.lines.length, k - 1⟩, s.item b)]
    | _ => []
  | line :: rest =>
    let r := s.step line rest.head?
    r.2.toList.map (fun item => (⟨k - s.phase.held, k⟩, item)) ++ r.1.located (k + 1) rest

/-- The items of a source, each with its span. -/
def located (source : Text) : List (Span × Item) :=
  Scanner.located {} 0 (Text.lines source)

/-- What the lines of a span say about its item. -/
structure Span.Describes (ls : List Text) (span : Span) (item : Item) : Prop where
  first_le_last : span.first ≤ span.last
  last_lt : span.last < ls.length
  idle : phaseAt ls span.first = .idle
  not_comment : ¬ startsWith (trim (lineAt ls span.first)) "/*" = true
  opening : span.opening? ls = some item.opening
  body : item.body = span.text ls
  inside : ∀ k, span.first < k → k ≤ span.last → ∃ b, phaseAt ls k = .block b
  goesOn : ∀ k, span.first ≤ k → k < span.last → GoesOn ls span.first k
  closes : ¬ GoesOn ls span.first span.last ∨ span.last + 1 = ls.length

@[simp]
theorem Scanner.opening_item (s : Scanner) (b : OpenBlock) : (s.item b).opening = b.opening := by
  cases h : b.opening <;> simp [item, h, Item.opening]

@[simp]
theorem Scanner.body_item (s : Scanner) (b : OpenBlock) : (s.item b).body = b.body := by
  cases h : b.opening <;> simp [item, h, Item.body]

/-- A declaration takes the comment that waits, and its kind from its body. -/
theorem Scanner.of_item_declaration {s : Scanner} {o : OpenBlock} {b : Block}
    (h : .declaration b = s.item o) :
    b.comment = s.pending ∧ blockKind b.body = (b.kind, b.exported) := by
  rw [Scanner.item] at h
  cases hopening : o.opening with
  | importStatement =>
    rw [hopening] at h
    cases h
  | declaration =>
    rw [hopening] at h
    cases h
    exact ⟨rfl, rfl⟩

theorem Scanner.held_of_taking? {s : Scanner} {line : Text} {b : OpenBlock}
    (h : s.taking? line = some b) : s.phase.held = b.lines.length := by
  cases hphase : s.phase with
  | block b' =>
    simp only [taking?, hphase, Option.some.injEq] at h
    rw [Phase.held, h]
  | comment doc => simp [taking?, hphase] at h
  | idle =>
    simp only [taking?, hphase] at h
    split at h
    · cases h
    · obtain ⟨opening, -, rfl⟩ := Option.map_eq_some_iff.1 h
      rfl

section Describes

variable {ls : List Text} {start k : Nat} {line : Text} {b : OpenBlock}

/-- A block that does not go on after line `k` ends there. -/
theorem Held.describes (h : Held ls start k b) (hline : ls[k]? = some line)
    (hoff : ¬ GoesOn ls start k) (s : Scanner) :
    Span.Describes ls ⟨start, k⟩ (s.item (b.push line)) where
  first_le_last := h.start_le
  last_lt := (List.getElem?_eq_some_iff.1 hline).1
  idle := h.idle
  not_comment := h.not_comment
  opening := by rw [Scanner.opening_item]; exact h.opening
  body := by rw [Scanner.body_item, OpenBlock.body, h.lines_push hline]; rfl
  inside := h.inside
  goesOn := h.goesOn
  closes := .inl hoff

/-- A block still open behind the last line ends with that line. -/
theorem Held.describes_of_end (h : Held ls start ls.length b) (hlt : start < ls.length)
    (s : Scanner) : Span.Describes ls ⟨start, ls.length - 1⟩ (s.item b) where
  first_le_last := Nat.le_sub_one_of_lt hlt
  last_lt := Nat.sub_one_lt_of_lt hlt
  idle := h.idle
  not_comment := h.not_comment
  opening := by rw [Scanner.opening_item]; exact h.opening
  body := by
    rw [Scanner.body_item, OpenBlock.body, h.lines, Span.text, Nat.sub_add_cancel (by omega)]
  inside j hstart hj := h.inside j hstart (by dsimp only at hj; omega)
  goesOn j hstart hj := h.goesOn j hstart (by dsimp only at hj; omega)
  closes := .inr (Nat.sub_add_cancel (by omega))

end Describes

/-! ## Runs -/

/-- A scan of `ls` that stands before line `k` in state `s`, with `rest` to come. -/
structure StandsAt (ls : List Text) (k : Nat) (s : Scanner) (rest : List Text) : Prop where
  le : k ≤ ls.length
  state : Scanner.before {} ls k = s
  rest : ls.drop k = rest

section StandsAt

variable {ls : List Text} {k : Nat} {s : Scanner} {line : Text} {rest : List Text}

theorem standsAt_zero (ls : List Text) : StandsAt ls 0 {} ls :=
  ⟨Nat.zero_le _, by cases ls <;> rfl, rfl⟩

theorem standsAt_of_lt (hk : k < ls.length) :
    StandsAt ls k (Scanner.before {} ls k) (ls[k] :: ls.drop (k + 1)) :=
  ⟨Nat.le_of_lt hk, rfl, List.drop_eq_getElem_cons hk⟩

theorem StandsAt.getElem? (h : StandsAt ls k s (line :: rest)) : ls[k]? = some line := by
  rw [← List.head?_drop, h.rest, List.head?_cons]

theorem StandsAt.drop_succ (h : StandsAt ls k s (line :: rest)) : ls.drop (k + 1) = rest := by
  rw [← List.tail_drop, h.rest, List.tail_cons]

theorem StandsAt.head? (h : StandsAt ls k s (line :: rest)) : rest.head? = ls[k + 1]? := by
  rw [← h.drop_succ, List.head?_drop]

theorem StandsAt.step (h : StandsAt ls k s (line :: rest)) :
    StandsAt ls (k + 1) (s.step line rest.head?).1 rest where
  le := (List.getElem?_eq_some_iff.1 h.getElem?).1
  state := by rw [Scanner.before_succ {} h.getElem?, h.state, h.head?]
  rest := h.drop_succ

theorem StandsAt.eq_length (h : StandsAt ls k s []) : k = ls.length :=
  Nat.le_antisymm h.le (List.drop_eq_nil_iff.1 h.rest)

theorem StandsAt.held_of_taking {b : OpenBlock} (h : StandsAt ls k s (line :: rest))
    (htaking : s.taking? line = some b) : Held ls (k - b.lines.length) k b :=
  Source.held_of_taking h.getElem? (by rw [h.state]; exact htaking)

theorem Phase.held_eq_zero {phase : Phase} (h : ∀ b, phase ≠ .block b) : phase.held = 0 := by
  cases phase with
  | block b => exact absurd rfl (h b)
  | idle => rfl
  | comment doc => rfl

theorem Phase.held_push (b : OpenBlock) (line : Text) :
    (Phase.block (b.push line)).held = b.lines.length + 1 :=
  b.length_push line

/-- What a line can do: go into no block, go into a block that goes on, or end a block. Each with
the items from this line on, and where the scan stands behind it. -/
inductive LineCase (ls : List Text) (k : Nat) (s : Scanner) (line : Text) (rest : List Text) : Prop
  | skipped (s' : Scanner) (taking : s.taking? line = none) (idle : s'.phase.held = 0)
      (located : s.located k (line :: rest) = s'.located (k + 1) rest)
      (next : StandsAt ls (k + 1) s' rest)
  | goesOn (b : OpenBlock) (taking : s.taking? line = some b)
      (located : s.located k (line :: rest) =
        ({ s with phase := .block (b.push line) } : Scanner).located (k + 1) rest)
      (next : StandsAt ls (k + 1) { s with phase := .block (b.push line) } rest)
  | ends (b : OpenBlock) (taking : s.taking? line = some b)
      (off : ¬ GoesOn ls (k - b.lines.length) k)
      (located : s.located k (line :: rest) =
        (⟨k - b.lines.length, k⟩, s.item (b.push line)) :: Scanner.located {} (k + 1) rest)
      (next : StandsAt ls (k + 1) {} rest)

theorem StandsAt.lineCase (h : StandsAt ls k s (line :: rest)) : LineCase ls k s line rest := by
  have hnext := h.step
  cases htaking : s.taking? line with
  | none =>
    obtain ⟨hnone, hphase⟩ : (s.step line rest.head?).2 = none ∧ _ :=
      Scanner.step_of_not_taking htaking
    refine .skipped _ htaking (Phase.held_eq_zero hphase) ?_ hnext
    simp [Scanner.located, hnone]
  | some b =>
    have hstep : s.step line rest.head? = _ := Scanner.step_of_taking htaking
    have hgoesOn := (h.held_of_taking htaking).goesOn_push h.getElem?
    rw [← h.head?] at hgoesOn
    by_cases hon : (b.push line).goesOn line rest.head? = true
    · rw [Scanner.extend_of_goesOn hon] at hstep
      rw [hstep] at hnext
      refine .goesOn b htaking ?_ hnext
      simp [Scanner.located, hstep]
    · rw [Scanner.extend_of_not_goesOn hon] at hstep
      rw [hstep] at hnext
      refine .ends b htaking (mt hgoesOn.2 hon) ?_ hnext
      simp [Scanner.located, hstep, Scanner.held_of_taking? htaking]

/-- **Every item is described by its span**, and no span starts before the block that is open. -/
theorem StandsAt.describes (h : StandsAt ls k s rest) {p : Span × Item}
    (hp : p ∈ s.located k rest) : k - s.phase.held ≤ p.1.first ∧ p.1.Describes ls p.2 := by
  induction rest generalizing k s with
  | nil =>
    cases hphase : s.phase with
    | idle => simp [Scanner.located, hphase] at hp
    | comment doc => simp [Scanner.located, hphase] at hp
    | block b =>
      simp only [Scanner.located, hphase, List.mem_singleton] at hp
      obtain rfl := h.eq_length
      have hopen : phaseAt ls ls.length = .block b := by rw [phaseAt, h.state, hphase]
      obtain ⟨hheld, hpos⟩ := held_of_phaseAt (Nat.le_refl _) hopen
      have hlength := hheld.length_le
      subst hp
      exact ⟨Nat.le_refl _, hheld.describes_of_end (by omega) s⟩
  | cons line rest ih =>
    cases h.lineCase with
    | skipped s' htaking hidle hlocated hnext =>
      rw [hlocated] at hp
      obtain ⟨hfirst, hdescribes⟩ := ih hnext hp
      exact ⟨by omega, hdescribes⟩
    | goesOn b htaking hlocated hnext =>
      rw [hlocated] at hp
      obtain ⟨hfirst, hdescribes⟩ := ih hnext hp
      rw [Phase.held_push] at hfirst
      rw [Scanner.held_of_taking? htaking]
      exact ⟨by omega, hdescribes⟩
    | ends b htaking hoff hlocated hnext =>
      rw [hlocated] at hp
      rw [Scanner.held_of_taking? htaking]
      rcases List.mem_cons.1 hp with rfl | hp
      · exact ⟨Nat.le_refl _, (h.held_of_taking htaking).describes h.getElem? hoff s⟩
      · obtain ⟨hfirst, hdescribes⟩ := ih hnext hp
        have hfirst : k + 1 ≤ p.1.first := hfirst
        exact ⟨by omega, hdescribes⟩

/-- The spans follow each other. -/
theorem StandsAt.pairwise (h : StandsAt ls k s rest) :
    (s.located k rest).Pairwise fun p q => p.1.last < q.1.first := by
  induction rest generalizing k s with
  | nil => cases hphase : s.phase <;> simp [Scanner.located, hphase]
  | cons line rest ih =>
    cases h.lineCase with
    | skipped s' htaking hidle hlocated hnext =>
      rw [hlocated]
      exact ih hnext
    | goesOn b htaking hlocated hnext =>
      rw [hlocated]
      exact ih hnext
    | ends b htaking hoff hlocated hnext =>
      rw [hlocated]
      -- behind a block that ends at line `k` the scanner is idle, so the next span starts later
      refine List.pairwise_cons.2 ⟨fun q hq => ?_, ih hnext⟩
      have hfirst : k + 1 ≤ q.1.first := (hnext.describes hq).1
      exact hfirst

/-- The span of an open block starts where the block does, and reaches up to here. -/
theorem StandsAt.exists_of_block (h : StandsAt ls k s rest) {b : OpenBlock}
    (hphase : s.phase = .block b) :
    ∃ p ∈ s.located k rest, p.1.first = k - b.lines.length ∧ k ≤ p.1.last + 1 := by
  induction rest generalizing k s b with
  | nil =>
    refine ⟨_, by rw [Scanner.located, hphase]; exact List.mem_singleton.2 rfl, rfl, ?_⟩
    exact Nat.le_add_of_sub_le (Nat.le_refl _)
  | cons line rest ih =>
    have hb : s.taking? line = some b := by rw [Scanner.taking?, hphase]
    cases h.lineCase with
    | skipped s' htaking => rw [hb] at htaking; cases htaking
    | goesOn b' htaking hlocated hnext =>
      obtain rfl : b = b' := Option.some.inj (hb.symm.trans htaking)
      obtain ⟨p, hp, hfirst, hlast⟩ := ih hnext rfl
      rw [hlocated]
      refine ⟨p, hp, ?_, Nat.le_of_succ_le hlast⟩
      rw [hfirst, OpenBlock.length_push, Nat.add_sub_add_right]
    | ends b' htaking hoff hlocated hnext =>
      obtain rfl : b = b' := Option.some.inj (hb.symm.trans htaking)
      rw [hlocated]
      exact ⟨_, List.mem_cons_self, rfl, Nat.le_succ k⟩

/-- A line that goes into a block lies in the span that starts where the block does. -/
theorem StandsAt.exists_of_taking (h : StandsAt ls k s (line :: rest)) {b : OpenBlock}
    (hb : s.taking? line = some b) :
    ∃ p ∈ s.located k (line :: rest), p.1.first = k - b.lines.length ∧ k ≤ p.1.last := by
  cases h.lineCase with
  | skipped s' htaking => rw [hb] at htaking; cases htaking
  | goesOn b' htaking hlocated hnext =>
    obtain rfl : b = b' := Option.some.inj (hb.symm.trans htaking)
    obtain ⟨p, hp, hfirst, hlast⟩ := hnext.exists_of_block rfl
    rw [hlocated]
    refine ⟨p, hp, ?_, Nat.le_of_succ_le_succ hlast⟩
    rw [hfirst, OpenBlock.length_push, Nat.add_sub_add_right]
  | ends b' htaking hoff hlocated hnext =>
    obtain rfl : b = b' := Option.some.inj (hb.symm.trans htaking)
    rw [hlocated]
    exact ⟨_, List.mem_cons_self, rfl, Nat.le_refl k⟩

/-- What is found from some line on is found by the whole scan. -/
theorem mem_located_of_mem {p : Span × Item} (hk : k ≤ ls.length)
    (hp : p ∈ (Scanner.before {} ls k).located k (ls.drop k)) : p ∈ Scanner.located {} 0 ls := by
  induction k with
  | zero => simpa [(standsAt_zero ls).state] using hp
  | succ k ih =>
    apply ih (Nat.le_of_succ_le hk)
    have hat := standsAt_of_lt hk
    rw [hat.rest, Scanner.located, List.mem_append, ← hat.step.state]
    exact .inr hp

end StandsAt

/-! ## The partition -/

/-- Spans that say which lines of a source its scan takes, and for which items. -/
structure Partition (source : Text) (parts : List (Span × Item)) : Prop where
  items_eq : parts.map Prod.snd = scan source
  imports_eq : imports source =
    (parts.filter fun p => p.1.opening? (Text.lines source) == some .importStatement).map
      fun p => p.1.text (Text.lines source)
  blocks_eq : (blocks source).map Block.body =
    (parts.filter fun p => p.1.opening? (Text.lines source) != some .importStatement).map
      fun p => p.1.text (Text.lines source)
  ordered : parts.Pairwise fun p q => p.1.last < q.1.first
  describes : ∀ p ∈ parts, p.1.Describes (Text.lines source) p.2
  /-- The lines in a block but for its first one are those that the scanner reaches in a block. -/
  inside_iff : ∀ k, k < (Text.lines source).length →
    ((∃ b, phaseAt (Text.lines source) k = .block b) ↔
      ∃ p ∈ parts, p.1.first < k ∧ k ≤ p.1.last)
  /-- No line outside the spans and outside comments opens anything. -/
  outside : ∀ k, k < (Text.lines source).length → phaseAt (Text.lines source) k = .idle →
    ¬ startsWith (trim (lineAt (Text.lines source) k)) "/*" = true →
    (∀ p ∈ parts, ¬ (p.1.first ≤ k ∧ k ≤ p.1.last)) →
    opening? (trim (lineAt (Text.lines source) k)) = none

theorem Scanner.map_snd_located (s : Scanner) (k : Nat) (ls : List Text) :
    (s.located k ls).map Prod.snd = s.items ls := by
  induction ls generalizing s k with
  | nil => cases h : s.phase <;> simp [located, items, h]
  | cons line rest ih =>
    simp only [located, items, List.map_append, List.map_map, ih]
    congr 1
    exact List.map_id'' (fun _ => rfl) _

section Partition

variable {ls : List Text} {parts : List (Span × Item)} {k : Nat} {b : OpenBlock}

/-- The bodies of the items that open as `q` asks are the texts of their spans. -/
theorem filterMap_body (h : ∀ p ∈ parts, p.1.Describes ls p.2) (q : Option Opening → Bool) :
    (parts.map Prod.snd).filterMap
        (fun item => if q (some item.opening) then some item.body else none) =
      (parts.filter fun p => q (p.1.opening? ls)).map fun p => p.1.text ls := by
  induction parts with
  | nil => rfl
  | cons p parts ih =>
    obtain ⟨hp, hparts⟩ := List.forall_mem_cons.1 h
    rw [List.map_cons, List.filterMap_cons, List.filter_cons, hp.opening, hp.body, ih hparts]
    cases q (some p.2.opening) <;> rfl

theorem import?_eq (item : Item) :
    item.import? = if some item.opening == some .importStatement then some item.body else none := by
  cases item <;> rfl

theorem map_body_declaration? (item : Item) :
    item.declaration?.map Block.body =
      if some item.opening != some .importStatement then some item.body else none := by
  cases item <;> rfl

/-- The span of the line that goes into a block. -/
theorem exists_span_of_taking (hk : k < ls.length)
    (h : (Scanner.before {} ls k).taking? ls[k] = some b) :
    ∃ p ∈ Scanner.located {} 0 ls, p.1.first = k - b.lines.length ∧ k ≤ p.1.last := by
  have hat := standsAt_of_lt hk
  obtain ⟨p, hp, hfirst, hlast⟩ := hat.exists_of_taking h
  rw [← hat.rest] at hp
  exact ⟨p, mem_located_of_mem (Nat.le_of_lt hk) hp, hfirst, hlast⟩

theorem exists_span_of_block (hk : k < ls.length) (h : phaseAt ls k = .block b) :
    ∃ p ∈ Scanner.located {} 0 ls, p.1.first < k ∧ k ≤ p.1.last := by
  have hphase : (Scanner.before {} ls k).phase = .block b := h
  obtain ⟨hheld, hpos⟩ := held_of_phaseAt (Nat.le_of_lt hk) h
  have hlength := hheld.length_le
  obtain ⟨p, hp, hfirst, hlast⟩ := exists_span_of_taking hk (b := b) (by simp [Scanner.taking?, hphase])
  exact ⟨p, hp, by omega, hlast⟩

theorem exists_span_of_opening {opening : Opening} (hk : k < ls.length)
    (hidle : phaseAt ls k = .idle) (hcomment : ¬ startsWith (trim (lineAt ls k)) "/*" = true)
    (h : opening? (trim (lineAt ls k)) = some opening) :
    ∃ p ∈ Scanner.located {} 0 ls, p.1.first ≤ k ∧ k ≤ p.1.last := by
  have hphase : (Scanner.before {} ls k).phase = .idle := hidle
  rw [lineAt_eq (List.getElem?_eq_getElem hk)] at hcomment h
  obtain ⟨p, hp, hfirst, hlast⟩ := exists_span_of_taking hk (b := { opening })
    (by simp only [Scanner.taking?, hphase, if_neg hcomment, h, Option.map_some])
  exact ⟨p, hp, by omega, hlast⟩

end Partition

/-- **The scan of a source is a partition of its lines** into spans, one for each item, and lines
that belong to none. -/
theorem scan_partition (source : Text) : Partition source (located source) := by
  have hat := standsAt_zero (Text.lines source)
  have hitems := Scanner.map_snd_located {} 0 (Text.lines source)
  have hdescribes := fun (p : Span × Item) (hp : p ∈ located source) => (hat.describes hp).2
  refine ⟨hitems, ?_, ?_, hat.pairwise, hdescribes, ?_, ?_⟩
  · rw [imports, scan, ← hitems, funext import?_eq]
    exact filterMap_body hdescribes (· == some .importStatement)
  · rw [blocks, scan, ← hitems, List.map_filterMap, funext map_body_declaration?]
    exact filterMap_body hdescribes (· != some .importStatement)
  · intro k hk
    constructor
    · rintro ⟨b, hb⟩
      exact exists_span_of_block hk hb
    · rintro ⟨p, hp, hfirst, hlast⟩
      exact (hdescribes p hp).inside k hfirst hlast
  · intro k hk hidle hcomment hout
    cases hopening : opening? (trim (lineAt (Text.lines source) k)) with
    | none => rfl
    | some opening =>
      obtain ⟨p, hp, hspan⟩ := exists_span_of_opening hk hidle hcomment hopening
      exact absurd hspan (hout p hp)

end Ambient.Source
