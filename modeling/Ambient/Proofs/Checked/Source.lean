/-
The scan of a source with its cuts checked.

How a line opens a block and what kind a block is are read behind keywords, words and brackets that
were found there before, and a comment's end behind the mark that opened it. So each step of the
scanner is the step without checks (`step_eq`), and the whole scan is the scan (`scan_eq`).
-/
import Ambient.Proofs.Checked.Code
import Ambient.Proofs.Source.Spans

namespace Ambient.Checked

open Source (Item Kind Keyword OpenBlock Opening Scanner startsWithKeyword)
open Text (size contains startsWith trim trimStart trimEnd endsWith)

/-! ## Lines and blocks -/

def closesOnOpenLine (line : Text) : Checked Bool :=
  if 3 < size line then do return contains (← behind line 2) "*/" else pure false

def afterKeyword? (t keyword : Text) : Checked (Option Text) :=
  if startsWithKeyword t keyword then do return some (trimStart (← behind t (size keyword)))
  else pure none

def namesAlias (t : Text) : Checked Bool := do
  match ← leadingWord? t with
  | none => return false
  | some name =>
    return (trimStart (← behind t (size name))).head?.any fun c => c == '=' || c == '<'

def opening? (line : Text) : Checked (Option Opening) := do
  match ← afterKeyword? line "import" with
  | some rest =>
    return if rest.head?.any fun c => c == '(' || c == '.' then none else some .importStatement
  | none =>
    if startsWithKeyword line "export" then return some .declaration
    else
      match ← afterKeyword? line "interface" with
      | some rest => return (← leadingWord? rest).map fun _ => .declaration
      | none =>
        match ← afterKeyword? line "type" with
        | some rest => return if ← namesAlias rest then some .declaration else none
        | none => return none

def exportListKind (list : Text) : Checked Kind := do
  match ← closeAt? list 0 with
  | some close =>
    return if startsWithKeyword (trimStart (← behind list (close + 1))) "from" then .reExport
      else .other
  | none => return .other

def keywordKind (rest : Text) : Checked Kind := do
  match ← leadingWord? rest with
  | none => return .other
  | some word =>
    if word = ("const" : Text) then
      return if (← afterKeyword? rest "const").any (startsWith · "enum") then .other
        else .value .constKeyword
    else if word = ("let" : Text) then return .value .letKeyword
    else if word = ("var" : Text) then return .value .varKeyword
    else if word = ("function" : Text) then return .function
    else if word = ("interface" : Text) then return .interface
    else if word = ("type" : Text) then return .typeAlias
    else return .other

def exportKind (rest : Text) : Checked Kind := do
  if startsWith rest ['*'] then return .reExport
  else if startsWith rest ['{'] then exportListKind rest
  else
    match (← afterKeyword? rest "type").filter (startsWith · ['{']) with
    | some list => exportListKind list
    | none => keywordKind ((← afterKeyword? rest "async").getD rest)

def blockKind (body : Text) : Checked (Kind × Bool) := do
  match ← afterKeyword? body "export" with
  | some rest => return (← exportKind rest, true)
  | none => return (if startsWithKeyword body "interface" then .interface else .typeAlias, false)

def continues (line : Text) (next : Option Text) : Checked Bool :=
  match next with
  | none => pure false
  | some next => do
    let code := trimEnd (← stripComments line)
    let next := trimStart next
    return [",", "=", "|", "&", "=>", ":"].any (fun token => endsWith code token) ||
      startsWith next ['|'] || startsWith next ['&'] ||
      (startsWith next ['.'] && !startsWith next "...")

/-! ## The scanner -/

def goesOn (b : OpenBlock) (line : Text) (next : Option Text) : Checked Bool :=
  if 0 < b.depth ∨ b.carry.isCode = false then pure true else continues line next

def item (s : Scanner) (b : OpenBlock) : Checked Item :=
  match b.opening with
  | .importStatement => pure (.importStatement b.body)
  | .declaration => do
    let (kind, exported) ← blockKind b.body
    return .declaration ⟨s.pending, b.body, kind, exported⟩

def extend (s : Scanner) (b : OpenBlock) (line : Text) (next : Option Text) :
    Checked (Scanner × Option Item) := do
  let b := b.push line
  if ← goesOn b line next then return ({ s with phase := .block b }, none)
  else return ({ phase := .idle, pending := none }, some (← item s b))

def idle (s : Scanner) (line : Text) (next : Option Text) : Checked (Scanner × Option Item) := do
  let trimmed := trim line
  if startsWith trimmed "/**" then
    if ← closesOnOpenLine trimmed then return ({ phase := .idle, pending := some line }, none)
    else return ({ phase := .comment (some [line]), pending := none }, none)
  else if startsWith trimmed "/*" then
    if ← closesOnOpenLine trimmed then return (s, none)
    else return ({ s with phase := .comment none }, none)
  else
    match ← opening? trimmed with
    | some opening => extend s { opening } line next
    | none =>
      if trimmed.isEmpty || startsWith trimmed "//" then return (s, none)
      else return ({ s with pending := none }, none)

def step (s : Scanner) (line : Text) (next : Option Text) : Checked (Scanner × Option Item) :=
  match s.phase with
  | .idle => idle s line next
  | .comment doc => pure (s.inComment doc line, none)
  | .block b => extend s b line next

def items (s : Scanner) : List Text → Checked (List Item)
  | [] =>
    match s.phase with
    | .block b => do return [← item s b]
    | _ => pure []
  | line :: rest => do
    let r ← step s line rest.head?
    return r.2.toList ++ (← items r.1 rest)

def scan (source : Text) : Checked (List Item) :=
  items {} (Text.lines source)

/-! ## No fault in a scan -/

theorem closesOnOpenLine_eq {line : Text} (h : startsWith line "/*" = true) :
    closesOnOpenLine line = pure (Source.closesOnOpenLine line) := by
  obtain ⟨rest, rfl⟩ := List.isPrefixOf_iff_prefix.1 h
  have hcut : behind (("/*" : Text) ++ rest) 2 = pure rest := behind_append "/*" rest
  rw [closesOnOpenLine, hcut, pure_bind, Source.closesOnOpenLine]
  by_cases hlong : 3 < size (("/*" : Text) ++ rest)
  · rw [if_pos hlong, decide_eq_true hlong]
    rfl
  · rw [if_neg hlong, decide_eq_false hlong]
    rfl

theorem afterKeyword?_eq (t keyword : Text) :
    afterKeyword? t keyword = pure (Source.afterKeyword? t keyword) := by
  rw [afterKeyword?, startsWithKeyword]
  cases hkeyword : Source.afterKeyword? t keyword with
  | none => rfl
  | some rest =>
    obtain ⟨tail, htail, hrest⟩ := Option.bind_eq_some_iff.1 hkeyword
    split at hrest
    · cases hrest
    · cases hrest
      have ht := Text.eq_append_of_after? htail
      rw [ht, behind_append]
      rfl

theorem namesAlias_eq (t : Text) : namesAlias t = pure (Source.namesAlias t) := by
  rw [namesAlias, leadingWord?_eq, pure_bind, Source.namesAlias]
  cases hname : Text.leadingWord? t with
  | none => rfl
  | some name => simp only [behind_leadingWord hname, pure_bind]

theorem opening?_eq (line : Text) : opening? line = pure (Source.opening? line) := by
  simp only [opening?, Source.opening?, afterKeyword?_eq, leadingWord?_eq, namesAlias_eq, pure_bind]
  cases Source.afterKeyword? line "import" with
  | some rest => rfl
  | none =>
    dsimp only
    rw [apply_ite pure]
    congr 1
    cases Source.afterKeyword? line "interface" with
    | some rest => rfl
    | none => cases Source.afterKeyword? line "type" <;> rfl

theorem exportListKind_eq (list : Text) :
    exportListKind list = pure (Source.exportListKind list) := by
  rw [exportListKind, closeAt?_zero, pure_bind, Source.exportListKind]
  cases hclose : Code.close? list with
  | none => rfl
  | some close => simp only [behind_eq (isBoundary_of_close? hclose).2, pure_bind]

theorem keywordKind_eq (rest : Text) : keywordKind rest = pure (Source.keywordKind rest) := by
  simp only [keywordKind, Source.keywordKind, leadingWord?_eq, afterKeyword?_eq, pure_bind]
  cases Text.leadingWord? rest with
  | none => rfl
  | some word => simp only [apply_ite pure]

theorem exportKind_eq (rest : Text) : exportKind rest = pure (Source.exportKind rest) := by
  simp only [exportKind, Source.exportKind, exportListKind_eq, afterKeyword?_eq, keywordKind_eq,
    pure_bind]
  rw [apply_ite pure, apply_ite pure]
  cases (Source.afterKeyword? rest "type").filter (startsWith · ['{']) <;> rfl

theorem blockKind_eq (body : Text) : blockKind body = pure (Source.blockKind body) := by
  simp only [blockKind, Source.blockKind, exportKind_eq, afterKeyword?_eq, pure_bind]
  cases Source.afterKeyword? body "export" <;> rfl

theorem continues_eq (line : Text) (next : Option Text) :
    continues line next = pure (Source.continues line next) := by
  cases next with
  | none => rfl
  | some next => rw [continues, stripComments_eq, pure_bind, Source.continues]

theorem goesOn_eq (b : OpenBlock) (line : Text) (next : Option Text) :
    goesOn b line next = pure (b.goesOn line next) := by
  rw [goesOn, continues_eq, OpenBlock.goesOn]
  split
  · rename_i h
    rcases h with h | h <;> simp [h]
  · rename_i h
    simp only [not_or, Bool.not_eq_false] at h
    simp [h]

theorem item_eq (s : Scanner) (b : OpenBlock) : item s b = pure (s.item b) := by
  rw [item, Scanner.item, blockKind_eq]
  cases b.opening <;> rfl

theorem extend_eq (s : Scanner) (b : OpenBlock) (line : Text) (next : Option Text) :
    extend s b line next = pure (s.extend b line next) := by
  simp only [extend, Scanner.extend, goesOn_eq, item_eq, pure_bind]
  split <;> rfl

theorem idle_eq (s : Scanner) (line : Text) (next : Option Text) :
    idle s line next = pure (s.idle line next) := by
  simp only [idle, Scanner.idle, opening?_eq, extend_eq, pure_bind]
  by_cases hdoc : startsWith (trim line) "/**" = true
  · rw [if_pos hdoc, if_pos hdoc, closesOnOpenLine_eq (Scanner.startsWith_comment_of_doc hdoc),
      pure_bind, apply_ite pure]
  · rw [if_neg hdoc, if_neg hdoc]
    by_cases hcomment : startsWith (trim line) "/*" = true
    · rw [if_pos hcomment, if_pos hcomment, closesOnOpenLine_eq hcomment, pure_bind, apply_ite pure]
    · rw [if_neg hcomment, if_neg hcomment]
      cases Source.opening? (trim line) with
      | some opening => rfl
      | none => exact (apply_ite pure _ _ _).symm

theorem step_eq (s : Scanner) (line : Text) (next : Option Text) :
    step s line next = pure (s.step line next) := by
  rw [step, Scanner.step]
  cases s.phase with
  | idle => exact idle_eq s line next
  | comment doc => rfl
  | block b => exact extend_eq s b line next

theorem items_eq (s : Scanner) (lines : List Text) : items s lines = pure (s.items lines) := by
  induction lines generalizing s with
  | nil =>
    rw [items, Scanner.items]
    cases s.phase with
    | block b => simp only [item_eq, pure_bind]
    | idle => rfl
    | comment doc => rfl
  | cons line rest ih => rw [items, step_eq, pure_bind, ih, pure_bind, Scanner.items]

theorem scan_eq (source : Text) : scan source = pure (Source.scan source) :=
  items_eq {} (Text.lines source)

end Ambient.Checked
