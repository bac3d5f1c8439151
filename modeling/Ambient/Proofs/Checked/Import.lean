/-
Imports read with their cuts checked.

The path of a statement is cut out at the quotes around it, and the names at the braces around
these. A word of a declaration is cut out where its characters stand (`Import.exists_of_mem_tokens_marks`).
-/
import Ambient.Import.Statement
import Ambient.Import.Usage
import Ambient.Proofs.Checked.Code
import Ambient.Proofs.Import.TypeNames
import Mathlib.Data.Option.Basic

namespace Ambient.Checked

open Code (chars exists_of_close?)
open Import (Binding Table Token)
open Text (size isBoundary takeBytes dropBytes trim trimStart trimEnd trimEndWhile startsWith
  endsWith collapse)

/-! ## Statements -/

/-- The byte at which a sign stands last. -/
def lastIndex? (sign : Char) (t : Text) : Option Nat :=
  match t.reverse.dropWhile (· != sign) with
  | [] => none
  | _ :: front => some (size front.reverse)

def splitPath? (t : Text) : Checked (Option (Text × Text)) := do
  match t.getLast? with
  | none => return none
  | some mark =>
    if mark = '\'' ∨ mark = '"' then
      let body ← before t (size t - 1)
      match lastIndex? mark body with
      | none => return none
      | some start => return some (← before body start, ← behind body (start + 1))
    else return none

def splitBraces? (clause : Text) : Checked (Option (Text × Text)) := do
  if '{' ∈ clause then
    let brace := size (clause.takeWhile (· != '{'))
    match ← closeAt? clause brace with
    | none => return none
    | some close => return some (← before clause brace, ← slice clause (brace + 1) close)
  else return some (clause, [])

def statement? (t : Text) : Checked (Option (Text × List Binding)) := do
  let t := trimEnd (trimEndWhile (· == ';') (collapse (← stripComments t)))
  match Text.after? t "import" with
  | none => return none
  | some rest =>
    match ← splitPath? (Import.skipTypeMark (trimStart rest)) with
    | none => return none
    | some (front, path) =>
      match Text.before? (trimEnd front) "from" with
      | none => return none
      | some clause =>
        if (trim clause).isEmpty then return none
        else
          match ← splitBraces? (trim clause) with
          | none => return none
          | some (head, braces) =>
            match (← split ',' head).mapM Import.headBinding? with
            | none => return none
            | some heads =>
              return some (path, heads ++ (← split ',' braces).map Import.namedBinding)

def addStatement (table : Table) (t : Text) : Checked Table := do
  match ← statement? t with
  | some (path, bindings) => return bindings.foldl (fun table b => table.add path b) table
  | none => return table

def ofStatements (statements : List Text) : Checked Table :=
  statements.foldlM addStatement []

/-- A text around the first place where a sign stands. -/
theorem eq_append_of_dropWhile {sign d : Char} {t rest : Text}
    (h : t.dropWhile (· != sign) = d :: rest) :
    d = sign ∧ t = t.takeWhile (· != sign) ++ d :: rest := by
  refine ⟨?_, ?_⟩
  · have hhead := List.head?_dropWhile_not (· != sign) t
    rw [h] at hhead
    simpa using hhead
  · rw [← h, List.takeWhile_append_dropWhile]

theorem splitPath?_eq (t : Text) : splitPath? t = pure (Import.splitPath? t) := by
  rcases List.eq_nil_or_concat t with rfl | ⟨body, mark, rfl⟩
  · rfl
  · rw [List.concat_eq_append, splitPath?, Import.splitPath?, List.getLast?_concat]
    simp only [Option.bind_eq_bind, Option.bind_some, guard, List.dropLast_concat]
    by_cases hmark : mark = '\'' ∨ mark = '"'
    · have hwidth : mark.utf8Size = 1 := by
        rcases hmark with rfl | rfl <;> rfl
      have hsize : size (body ++ [mark]) - 1 = size body := by
        rw [Text.size_append, size, size, hwidth, Nat.add_zero, Nat.add_sub_cancel]
      rw [if_pos hmark, if_pos hmark, hsize, before_append, pure_bind, lastIndex?]
      cases hfront : body.reverse.dropWhile (· != mark) with
      | nil => rfl
      | cons d front =>
        obtain ⟨rfl, hreverse⟩ := eq_append_of_dropWhile hfront
        have hbody : body = front.reverse ++ d :: (body.reverse.takeWhile (· != d)).reverse := by
          simpa using congrArg List.reverse hreverse
        have hbefore := before_append front.reverse (d :: (body.reverse.takeWhile (· != d)).reverse)
        have hbehind := behind_append (front.reverse ++ [d])
          (body.reverse.takeWhile (· != d)).reverse
        rw [← hbody] at hbefore
        rw [List.append_assoc, List.singleton_append, ← hbody, Text.size_append, size, size, hwidth,
          Nat.add_zero] at hbehind
        simp only [hbefore, hbehind, pure_bind]
        rfl
    · rw [if_neg hmark, if_neg hmark]
      rfl

theorem splitBraces?_eq (clause : Text) :
    splitBraces? clause = pure (Import.splitBraces? clause) := by
  rw [splitBraces?, Import.splitBraces?]
  cases hbraces : clause.dropWhile (· != '{') with
  | nil =>
    have hnot : '{' ∉ clause := by
      have hsplit := List.takeWhile_append_dropWhile (p := (· != '{')) (l := clause)
      rw [hbraces, List.append_nil] at hsplit
      intro hmem
      rw [← hsplit] at hmem
      simpa using List.all_eq_true.1 List.all_takeWhile _ hmem
    rw [if_neg hnot]
  | cons d rest =>
    obtain ⟨rfl, hclause⟩ := eq_append_of_dropWhile hbraces
    have hmem : '{' ∈ clause := by
      rw [hclause]
      simp
    generalize clause.takeWhile (· != '{') = head at hclause ⊢
    subst hclause
    rw [if_pos hmem]
    dsimp only
    rw [closeAt?_eq (isBoundary_append head _), pure_bind, Code.closeAt?, Text.dropBytes_append,
      before_append]
    cases hclose : Code.close? ('{' :: rest) with
    | none => rfl
    | some close =>
      obtain ⟨opener, u, closer, v, hrest, -, rfl⟩ := exists_of_close? hclose
      cases hrest
      have hslice := slice_append (head ++ ['{']) u (closer :: v)
      have hwidth : size (head ++ ['{']) = size head + 1 := Text.size_append head ['{']
      rw [hwidth, List.append_assoc, List.singleton_append, Nat.add_assoc (size head)] at hslice
      simp only [Option.map_some, hslice, pure_bind, List.tail_cons, Nat.add_sub_cancel_left,
        Text.takeBytes_append]

theorem statement?_eq (t : Text) : statement? t = pure (Import.statement? t) := by
  rw [statement?, stripComments_eq, pure_bind, Import.statement?]
  dsimp only
  cases Text.after? (trimEnd (trimEndWhile (· == ';') (collapse (Code.stripComments t))))
      "import" with
  | none => rfl
  | some rest =>
    simp only [splitPath?_eq, pure_bind, Option.bind_eq_bind, Option.bind_some]
    cases Import.splitPath? (Import.skipTypeMark (trimStart rest)) with
    | none => rfl
    | some parts =>
      obtain ⟨front, path⟩ := parts
      simp only [Option.bind_some]
      cases Text.before? (trimEnd front) "from" with
      | none => rfl
      | some clause =>
        simp only [Option.bind_some, guard, splitBraces?_eq, split_eq, pure_bind]
        by_cases hempty : (trim clause).isEmpty = true
        · rw [if_pos hempty, hempty]
          rfl
        · rw [if_neg hempty, if_pos (by simpa using hempty)]
          cases Import.splitBraces? (trim clause) with
          | none => rfl
          | some parts =>
            obtain ⟨head, braces⟩ := parts
            simp only [Option.pure_def, Option.bind_some]
            cases (Code.split ',' head).mapM Import.headBinding? <;> rfl

theorem addStatement_eq (table : Table) (t : Text) :
    addStatement table t = pure (table.addStatement t) := by
  rw [addStatement, statement?_eq, pure_bind, Table.addStatement]
  cases Import.statement? t <;> rfl

theorem ofStatements_eq (statements : List Text) :
    ofStatements statements = pure (Table.ofStatements statements) := by
  rw [ofStatements, Table.ofStatements]
  generalize ([] : Table) = table
  induction statements generalizing table with
  | nil => rfl
  | cons t rest ih => rw [List.foldlM_cons, addStatement_eq, pure_bind, ih, List.foldl_cons]

/-! ## Words -/

/-- A word, when it may name a type. -/
def typeName? (t : Text) (w : Token) : Checked (Option Text) := do
  let word ← slice t w.start w.stop
  let isMember := endsWith (← before t w.start) ['.']
  let isQualifier ← if isMember then pure false else (startsWith · ['.']) <$> behind t w.stop
  return if word.head?.any Char.isUpper || isQualifier then some word else none

def typeNames (t : Text) : Checked (List Text) := do
  return (← (Import.tokens (chars t)).mapM (typeName? t)).filterMap id

theorem startsWith_singleton (t : Text) (c : Char) : startsWith t [c] = (t.head? == some c) := by
  cases t with
  | nil => rfl
  | cons d t =>
    rw [startsWith, List.isPrefixOf, List.isPrefixOf, Bool.and_true, List.head?_cons, Bool.beq_comm]
    rfl

theorem endsWith_singleton (t : Text) (c : Char) : endsWith t [c] = (t.getLast? == some c) := by
  have hreverse := startsWith_singleton t.reverse c
  rw [List.head?_reverse] at hreverse
  exact hreverse

theorem typeName?_eq {t : Text} {w : Token} (h : w ∈ Import.tokens (chars t)) :
    typeName? t w = pure (if w.namesType t then some w.text else none) := by
  obtain ⟨u, v, ht, hstart⟩ := Import.exists_of_mem_tokens_marks h
  rw [Nat.zero_add] at hstart
  have hslice : slice t w.start w.stop = pure w.text := by
    rw [ht, Token.stop, hstart, slice_append]
  have hbefore : before t w.start = pure u := by
    rw [ht, hstart, before_append]
  have hbehind : behind t w.stop = pure v := by
    rw [ht, Token.stop, hstart, ← Text.size_append, ← List.append_assoc, behind_append]
  have hlast : Code.charBefore? t w.start = u.getLast? := by
    rw [ht, hstart, Code.charBefore?_append]
  have hnext : Code.charAfter? t w.stop = v.head? := by
    rw [ht, Import.charAfter?_stop hstart]
  simp only [typeName?, hslice, hbefore, hbehind, endsWith_singleton, startsWith_singleton,
    Token.namesType, hlast, hnext, pure_bind, map_pure]
  cases hmember : u.getLast? == some '.' with
  | true => simp [bne, hmember]
  | false => simp [bne, hmember]

theorem typeNames_eq (t : Text) : typeNames t = pure (Import.typeNames t) := by
  rw [typeNames, mapM_eq_pure fun w hw => typeName?_eq hw, pure_bind, Import.typeNames,
    List.filterMap_map, ← List.filterMap_eq_map, List.filterMap_filter]
  rfl

end Ambient.Checked
