/-
The numeric pattern, and that numerals are read by it.

The pattern is a regular language, in the words of the library: `numeral`. Where a language does not
start with a character of a class, a run of that class before it is read by taking all of the run
(`many_mul_iff`), and an optional character by taking it whenever it is there (`optional_mul_iff`). So
a reader that never goes back accepts the whole pattern, and nothing else (`isNumeral_iff`).
-/
import Ambient.Declaration.Literal
import Mathlib.Computability.Language

namespace Ambient.Declaration

open Text (isDigit)
open scoped Computability

/-! ## Languages of classes -/

/-- The texts of one character of a class. -/
def oneOf (p : Char → Bool) : Language Char :=
  {t | ∃ c, t = [c] ∧ p c = true}

/-- No text of the language starts with a character of the class. -/
def Stops (p : Char → Bool) (l : Language Char) : Prop :=
  ∀ c t, c :: t ∈ l → p c = false

section Language

variable {p q : Char → Bool} {l m : Language Char} {t u : Text} {c : Char}

theorem oneOf_mul_iff : t ∈ oneOf p * l ↔ ∃ c u, t = c :: u ∧ p c = true ∧ u ∈ l := by
  rw [Language.mem_mul]
  constructor
  · rintro ⟨_, ⟨c, rfl, hc⟩, u, hu, rfl⟩
    exact ⟨c, u, rfl, hc, hu⟩
  · rintro ⟨c, u, rfl, hc, hu⟩
    exact ⟨[c], ⟨c, rfl, hc⟩, u, hu, rfl⟩

theorem cons_mem_oneOf_mul : c :: t ∈ oneOf p * l ↔ p c = true ∧ t ∈ l := by
  rw [oneOf_mul_iff]
  constructor
  · rintro ⟨_, _, heq, hc, hu⟩
    cases heq
    exact ⟨hc, hu⟩
  · rintro ⟨hc, ht⟩
    exact ⟨c, t, rfl, hc, ht⟩

theorem mem_many : t ∈ (oneOf p)∗ ↔ ∀ c ∈ t, p c = true := by
  rw [Language.mem_kstar]
  constructor
  · rintro ⟨ts, rfl, hts⟩ c hc
    obtain ⟨u, hu, hcu⟩ := List.mem_flatten.1 hc
    obtain ⟨d, rfl, hd⟩ := hts u hu
    rwa [List.mem_singleton.1 hcu]
  · intro h
    refine ⟨t.map fun c => [c], (List.flatMap_singleton' t).symm, fun u hu => ?_⟩
    obtain ⟨c, hc, rfl⟩ := List.mem_map.1 hu
    exact ⟨c, rfl, h c hc⟩

theorem optional_mul : t ∈ (1 + l) * m ↔ t ∈ m ∨ t ∈ l * m := by
  rw [add_mul, one_mul, Language.mem_add]

theorem stops_oneOf_mul (h : ∀ c, p c = true → q c = false) : Stops q (oneOf p * l) :=
  fun c _ ht => h c (cons_mem_oneOf_mul.1 ht).1

/-- A run of a class is taken as far as it goes. -/
theorem many_mul_iff (h : Stops p l) : t ∈ (oneOf p)∗ * l ↔ t.dropWhile p ∈ l := by
  constructor
  · intro ht
    obtain ⟨w, hw, u, hu, rfl⟩ := Language.mem_mul.1 ht
    have hstop : u.dropWhile p = u := by
      cases u with
      | nil => rfl
      | cons c u => rw [List.dropWhile_cons_of_neg (by simp [h c u hu])]
    rwa [List.dropWhile_append_of_pos (mem_many.1 hw), hstop]
  · intro ht
    refine Language.mem_mul.2 ⟨t.takeWhile p, ?_, _, ht, List.takeWhile_append_dropWhile⟩
    exact mem_many.2 (List.all_eq_true.1 List.all_takeWhile)

theorem many1_mul_iff (h : Stops p l) :
    t ∈ oneOf p * ((oneOf p)∗ * l) ↔ t.head?.any p = true ∧ t.dropWhile p ∈ l := by
  cases t with
  | nil =>
    rw [oneOf_mul_iff]
    simp
  | cons c t =>
    rw [cons_mem_oneOf_mul, many_mul_iff h, List.head?_cons, Option.any_some]
    constructor
    · rintro ⟨hc, ht⟩
      exact ⟨hc, by rwa [List.dropWhile_cons_of_pos hc]⟩
    · rintro ⟨hc, ht⟩
      exact ⟨hc, by rwa [List.dropWhile_cons_of_pos hc] at ht⟩

/-- An optional character is taken whenever it is there. -/
theorem cons_mem_optional_mul (h : Stops p l) :
    c :: t ∈ (1 + oneOf p) * l ↔ if p c = true then t ∈ l else c :: t ∈ l := by
  rw [optional_mul, cons_mem_oneOf_mul]
  split
  · rename_i hc
    refine ⟨fun ht => ht.elim (fun ht => ?_) And.right, fun ht => .inr ⟨hc, ht⟩⟩
    rw [h c t ht] at hc
    cases hc
  · rename_i hc
    exact ⟨fun ht => ht.elim id fun ht => absurd ht.1 hc, .inl⟩

theorem nil_mem_optional_mul : [] ∈ (1 + oneOf p) * l ↔ [] ∈ l := by
  rw [optional_mul, oneOf_mul_iff]
  simp

end Language

/-! ## The pattern -/

/-- A character, or the gap between digits. -/
def orGap (p : Char → Bool) (c : Char) : Bool :=
  p c || c == '_'

/-- The numerals of a base other than ten. -/
def inBase (letter digit : Char → Bool) : Language Char :=
  oneOf (· == '0') * (oneOf letter * (oneOf (orGap digit) * (oneOf (orGap digit))∗))

def isHexDigit (c : Char) : Bool :=
  c.isDigit || ('a' ≤ c && c ≤ 'f') || ('A' ≤ c && c ≤ 'F')

def isOctalDigit (c : Char) : Bool :=
  '0' ≤ c && c ≤ '7'

def isBinaryDigit (c : Char) : Bool :=
  c == '0' || c == '1'

def hexadecimal : Language Char :=
  inBase (fun c => c == 'x' || c == 'X') isHexDigit

def octal : Language Char :=
  inBase (fun c => c == 'o' || c == 'O') isOctalDigit

def binary : Language Char :=
  inBase (fun c => c == 'b' || c == 'B') isBinaryDigit

/-- Digits with a decimal point among or behind them, before them, or without one. -/
def mantissa : Language Char :=
  oneOf isDigit * ((oneOf (orGap isDigit))∗ * ((1 + oneOf (· == '.')) * (oneOf (orGap isDigit))∗)) +
    oneOf (· == '.') * (oneOf isDigit * (oneOf (orGap isDigit))∗)

def isSign (c : Char) : Bool :=
  c == '+' || c == '-'

def exponent : Language Char :=
  oneOf (fun c => c == 'e' || c == 'E') *
    ((1 + oneOf isSign) * (oneOf isDigit * (oneOf isDigit)∗))

/-- The end of a numeral, with or without the mark of a big integer. -/
def ending : Language Char :=
  1 + oneOf (· == 'n')

/-- **The numeric pattern.** -/
def numeral : Language Char :=
  (1 + oneOf (· == '-')) *
    ((hexadecimal + octal + binary + mantissa * (1 + exponent)) * ending)

section Pattern

variable {t : Text}

theorem mem_ending : t ∈ ending ↔ isNumeralEnd t = true := by
  rw [ending, Language.mem_add, Language.mem_one, isNumeralEnd, Bool.or_eq_true, beq_iff_eq, beq_iff_eq]
  refine or_congr Iff.rfl ⟨?_, ?_⟩
  · rintro ⟨c, rfl, hc⟩
    rw [eq_of_beq hc]
  · rintro rfl
    exact ⟨'n', rfl, rfl⟩

theorem stops_ending {p : Char → Bool} (hp : p 'n' = false) : Stops p ending := by
  intro c t h
  have heq : c :: t = ['n'] := by simpa [mem_ending, isNumeralEnd] using h
  cases heq
  exact hp

theorem inBase_mul_ending (letter digit : Char → Bool) (hn : orGap digit 'n' = false) :
    t ∈ inBase letter digit * ending ↔
      ∃ b digits, t = '0' :: b :: digits ∧ letter b = true ∧
        digits.head?.any (orGap digit) = true ∧ isNumeralEnd (digits.dropWhile (orGap digit)) = true := by
  simp only [inBase, mul_assoc, oneOf_mul_iff (p := (· == '0')), oneOf_mul_iff (p := letter),
    many1_mul_iff (stops_ending hn), mem_ending]
  constructor
  · rintro ⟨_, _, rfl, hzero, b, digits, rfl, hb, hdigits⟩
    exact ⟨b, digits, by rw [eq_of_beq hzero], hb, hdigits⟩
  · rintro ⟨b, digits, rfl, hb, hdigits⟩
    exact ⟨'0', b :: digits, rfl, rfl, b, digits, rfl, hb, hdigits⟩

/-- Two runs of a class around an optional character are one run, or two with that character between
them. -/
theorem runs_eq (p : Char → Bool) (l m : Language Char) :
    (oneOf p)∗ * ((1 + l) * ((oneOf p)∗ * m)) = (oneOf p)∗ * (m + l * ((oneOf p)∗ * m)) := by
  calc (oneOf p)∗ * ((1 + l) * ((oneOf p)∗ * m))
      = (oneOf p)∗ * (oneOf p)∗ * m + (oneOf p)∗ * (l * ((oneOf p)∗ * m)) := by
        rw [add_mul, one_mul, mul_add, mul_assoc]
    _ = (oneOf p)∗ * (m + l * ((oneOf p)∗ * m)) := by rw [kstar_mul_kstar, mul_add]

/-- Behind the first run of digits, a decimal point is taken with the run behind it. -/
theorem point_mul_iff {l : Language Char} (hdigit : Stops (orGap isDigit) l)
    (hdot : Stops (· == '.') l) :
    t ∈ l + oneOf (· == '.') * ((oneOf (orGap isDigit))∗ * l) ↔
      (match t with
        | '.' :: rest => rest.dropWhile (orGap isDigit)
        | rest => rest) ∈ l := by
  rw [Language.mem_add]
  split
  · rename_i rest
    rw [cons_mem_oneOf_mul, many_mul_iff hdigit]
    refine ⟨fun h => h.elim (fun h => ?_) And.right, fun h => .inr ⟨rfl, h⟩⟩
    cases hdot _ _ h
  · rename_i hpoint
    refine ⟨fun h => h.elim id fun h => ?_, .inl⟩
    obtain ⟨c, u, rfl, hc, -⟩ := oneOf_mul_iff.1 h
    rw [eq_of_beq hc] at hpoint
    exact absurd rfl (hpoint u)

/-- What a digit, a gap or a decimal point does not start can follow a mantissa. -/
theorem mantissa_mul_iff {l : Language Char} (hdigit : Stops (orGap isDigit) l)
    (hdot : Stops (· == '.') l) : t ∈ mantissa * l ↔ ∃ rest, afterMantissa? t = some rest ∧ rest ∈ l := by
  have hrun : Stops (orGap isDigit) (l + oneOf (· == '.') * ((oneOf (orGap isDigit))∗ * l)) := by
    intro c t h
    rcases h with h | h
    · exact hdigit c t h
    · refine stops_oneOf_mul (fun c hc => ?_) c t h
      rw [eq_of_beq hc]
      decide
  rw [mantissa, add_mul]
  simp only [mul_assoc, Language.mem_add, runs_eq]
  unfold afterMantissa?
  split
  · rename_i c rest
    have hpoint : isDigit '.' = false := by decide
    rw [cons_mem_oneOf_mul, cons_mem_oneOf_mul, cons_mem_oneOf_mul, many_mul_iff hdigit, hpoint]
    cases isDigit c
    · simp
    · simp
      rfl
  · rename_i c rest hleading
    have hpoint : ¬ ((c == '.') = true ∧ rest ∈ oneOf isDigit * ((oneOf (orGap isDigit))∗ * l)) := by
      rintro ⟨hc, hrest⟩
      obtain ⟨d, u, rfl, -⟩ := oneOf_mul_iff.1 hrest
      exact hleading d u (eq_of_beq hc) rfl
    rw [cons_mem_oneOf_mul, cons_mem_oneOf_mul, or_iff_left hpoint, many_mul_iff hrun,
      point_mul_iff hdigit hdot]
    show isDigit c = true ∧ _ ∈ l ↔ _
    cases isDigit c with
    | false => simp
    | true =>
      have hclass : isDigitOrGap = orGap isDigit := rfl
      rw [hclass]
      simp only [if_true, true_and]
      generalize rest.dropWhile (orGap isDigit) = w
      split <;> simp
  · simp [oneOf_mul_iff]

theorem isSign_iff {c : Char} : isSign c = true ↔ c = '+' ∨ c = '-' := by
  simp [isSign]

theorem sign_mul_iff {l : Language Char} (h : Stops isSign l) :
    t ∈ (1 + oneOf isSign) * l ↔
      (match t with
        | '+' :: rest | '-' :: rest => rest
        | rest => rest) ∈ l := by
  split
  · exact cons_mem_optional_mul h
  · exact cons_mem_optional_mul h
  · rename_i hplus hminus
    cases t with
    | nil => exact nil_mem_optional_mul
    | cons c t =>
      have hc : isSign c = false := by
        refine Bool.eq_false_iff.2 fun hsign => ?_
        rcases isSign_iff.1 hsign with rfl | rfl
        · exact hplus t rfl
        · exact hminus t rfl
      rw [cons_mem_optional_mul h, hc]
      rfl

/-- An exponent is taken whenever a whole one is there. -/
theorem exponent_mul_ending :
    t ∈ (1 + exponent) * ending ↔ isNumeralEnd (afterExponent t) = true := by
  have hdigit : Stops isDigit ending := stops_ending (by decide)
  have hsign : Stops isSign (oneOf isDigit * ((oneOf isDigit)∗ * ending)) := by
    refine stops_oneOf_mul fun c hc => Bool.eq_false_iff.2 fun hsign => ?_
    rcases isSign_iff.1 hsign with rfl | rfl <;> revert hc <;> decide
  rw [optional_mul, exponent]
  simp only [mul_assoc]
  cases t with
  | nil => simp [oneOf_mul_iff, mem_ending, afterExponent]
  | cons e rest =>
    unfold afterExponent
    rw [cons_mem_oneOf_mul, sign_mul_iff hsign, many1_mul_iff hdigit, mem_ending, mem_ending]
    by_cases he : e = 'e' ∨ e = 'E'
    · have hending : isNumeralEnd (e :: rest) = false := by
        rcases he with rfl | rfl <;> rfl
      have hletter : (e == 'e' || e == 'E') = true := by simpa using he
      have hdigits : ∀ (found : Bool) (behind : Text), found = true ∧ isNumeralEnd behind = true ↔
          isNumeralEnd (if found = true then behind else e :: rest) = true := by
        intro found behind
        cases found <;> simp [hending]
      simp only [if_pos he, hending, hletter, Bool.false_eq_true, false_or, true_and]
      exact hdigits _ _
    · have hletter : (e == 'e' || e == 'E') = false := by simpa using he
      simp [if_neg he, hletter]

theorem baseDigit?_eq_some {b : Char} {digit : Char → Bool} :
    baseDigit? b = some digit ↔
      ((b == 'x' || b == 'X') = true ∧ isHexDigit = digit) ∨
      ((b == 'o' || b == 'O') = true ∧ isOctalDigit = digit) ∨
      ((b == 'b' || b == 'B') = true ∧ isBinaryDigit = digit) := by
  have hhex : isHexDigit = fun c => c.isDigit || ('a' ≤ c && c ≤ 'f') || ('A' ≤ c && c ≤ 'F') := rfl
  have hoctal : isOctalDigit = fun c => '0' ≤ c && c ≤ '7' := rfl
  have hbinary : isBinaryDigit = fun c => c == '0' || c == '1' := rfl
  unfold baseDigit?
  split <;> simp_all

theorem bases_mul_ending : t ∈ (hexadecimal + octal + binary) * ending ↔
    ∃ b digits digit, t = '0' :: b :: digits ∧ baseDigit? b = some digit ∧
      digits.head?.any (orGap digit) = true ∧ isNumeralEnd (digits.dropWhile (orGap digit)) = true := by
  simp only [add_mul, Language.mem_add, hexadecimal, octal, binary,
    inBase_mul_ending _ isHexDigit (by decide), inBase_mul_ending _ isOctalDigit (by decide),
    inBase_mul_ending _ isBinaryDigit (by decide), baseDigit?_eq_some]
  constructor
  · rintro ((⟨b, digits, rfl, hb, h⟩ | ⟨b, digits, rfl, hb, h⟩) | ⟨b, digits, rfl, hb, h⟩)
    · exact ⟨b, digits, isHexDigit, rfl, .inl ⟨hb, rfl⟩, h⟩
    · exact ⟨b, digits, isOctalDigit, rfl, .inr (.inl ⟨hb, rfl⟩), h⟩
    · exact ⟨b, digits, isBinaryDigit, rfl, .inr (.inr ⟨hb, rfl⟩), h⟩
  · rintro ⟨b, digits, _, rfl, ⟨hb, rfl⟩ | ⟨hb, rfl⟩ | ⟨hb, rfl⟩, h⟩
    · exact .inl (.inl ⟨b, digits, rfl, hb, h⟩)
    · exact .inl (.inr ⟨b, digits, rfl, hb, h⟩)
    · exact .inr ⟨b, digits, rfl, hb, h⟩

theorem stops_exponent {p : Char → Bool} (hn : p 'n' = false) (he : p 'e' = false)
    (hE : p 'E' = false) : Stops p ((1 + exponent) * ending) := by
  intro c t h
  rcases optional_mul.1 h with h | h
  · exact stops_ending hn c t h
  · rw [exponent, mul_assoc] at h
    refine stops_oneOf_mul (fun d hd => ?_) c t h
    have hletter : d = 'e' ∨ d = 'E' := by simpa using hd
    rcases hletter with rfl | rfl
    · exact he
    · exact hE

theorem isUnsignedNumeral_iff : isUnsignedNumeral t = true ↔
    t ∈ (hexadecimal + octal + binary + mantissa * (1 + exponent)) * ending := by
  have hdigit : Stops (orGap isDigit) ((1 + exponent) * ending) :=
    stops_exponent (by decide) (by decide) (by decide)
  have hdot : Stops (· == '.') ((1 + exponent) * ending) := stops_exponent rfl rfl rfl
  rw [add_mul, Language.mem_add, mul_assoc, bases_mul_ending, mantissa_mul_iff hdigit hdot]
  unfold isUnsignedNumeral
  rw [Bool.or_eq_true]
  refine or_congr ?_ (by simp only [exponent_mul_ending, Option.any_eq_true])
  split
  · rename_i b digits
    cases hbase : baseDigit? b with
    | none => simp_all
    | some digit =>
      simp only [Bool.and_eq_true]
      constructor
      · intro h
        exact ⟨b, digits, digit, rfl, hbase, h⟩
      · rintro ⟨_, _, _, heq, hbase', h⟩
        cases heq
        obtain rfl := Option.some.inj (hbase.symm.trans hbase')
        exact h
  · rename_i hzero
    refine ⟨nofun, fun h => ?_⟩
    obtain ⟨b, digits, -, rfl, -⟩ := h
    exact absurd rfl (hzero b digits)

/-- **Numerals are the texts of the numeric pattern.** -/
theorem isNumeral_iff : isNumeral t = true ↔ t ∈ numeral := by
  have hminus : Stops (· == '-')
      ((hexadecimal + octal + binary + mantissa * (1 + exponent)) * ending) := by
    intro c t h
    rw [← isUnsignedNumeral_iff] at h
    rw [beq_eq_false_iff_ne]
    rintro rfl
    have hdigit : isDigit '-' = false := by decide
    simp [isUnsignedNumeral, afterMantissa?, hdigit] at h
  unfold isNumeral
  split
  · rw [numeral, cons_mem_optional_mul hminus, isUnsignedNumeral_iff]
    rfl
  · rename_i hsign
    rw [isUnsignedNumeral_iff, numeral]
    cases t with
    | nil => exact nil_mem_optional_mul.symm
    | cons c t =>
      have hc : (c == '-') = false := by
        rw [beq_eq_false_iff_ne]
        rintro rfl
        exact hsign t rfl
      rw [cons_mem_optional_mul hminus, hc]
      rfl

end Pattern

end Ambient.Declaration
