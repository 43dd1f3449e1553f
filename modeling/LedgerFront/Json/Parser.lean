import LedgerFront.Json.Basic

/-!
# Reading JSON text

`Json.parse?` reads one value with blanks around it and nothing else. Containers
may stand inside each other 127 deep. A number without fraction and exponent
that fits 64 bits is an integer, every other number a double: its leading digits,
as many as 64 bits hold, scaled by powers of ten with one rounding each. A number
beyond the doubles is refused, and so is half of a surrogate pair.
-/

namespace LedgerFront.Json

/-- A reading of the start of `s`: what it denotes and what follows it. -/
structure Step (α : Type) (s : List Char) where
  value : α
  rest : List Char
  shorter : rest.length < s.length

/-- Blanks between tokens. -/
def isSpace (c : Char) : Bool := c = ' ' || c = '\n' || c = '\t' || c = '\r'

/-- The text without blanks at its start. -/
def skip (s : List Char) : List Char := s.dropWhile isSpace

theorem length_skip_le (s : List Char) : (skip s).length ≤ s.length :=
  (List.dropWhile_sublist isSpace).length_le

/-- The value of a hexadecimal digit in either letter case. -/
def hexDigit? (c : Char) : Option Nat :=
  let n := c.toNat
  if 48 ≤ n ∧ n ≤ 57 then some (n - 48)
  else if 65 ≤ n ∧ n ≤ 70 then some (n - 55)
  else if 97 ≤ n ∧ n ≤ 102 then some (n - 87)
  else none

/-- The value of four hexadecimal digits. -/
def unit? (a b c d : Char) : Option Nat :=
  match hexDigit? a, hexDigit? b, hexDigit? c, hexDigit? d with
  | some w, some x, some y, some z => some (4096 * w + 256 * x + 16 * y + z)
  | _, _, _, _ => none

/-- The character of a one-letter escape. -/
def unescape? (c : Char) : Option Char :=
  match c with
  | '"' => some '"'
  | '\\' => some '\\'
  | '/' => some '/'
  | 'b' => some (Char.ofNat 8)
  | 'f' => some (Char.ofNat 12)
  | 'n' => some '\n'
  | 'r' => some '\r'
  | 't' => some '\t'
  | _ => none

/-- The code points up to the closing quote, halves of surrogate pairs among them, and what follows
the quote. -/
def stringBody : List Char → Option (List Nat × List Char)
  | [] => none
  | '"' :: r => some ([], r)
  | '\\' :: 'u' :: a :: b :: c :: d :: r =>
    (unit? a b c d).bind fun n => (stringBody r).map fun p => (n :: p.1, p.2)
  | '\\' :: c :: r =>
    (unescape? c).bind fun x => (stringBody r).map fun p => (x.toNat :: p.1, p.2)
  | c :: r => if c.toNat < 32 then none else (stringBody r).map fun p => (c.toNat :: p.1, p.2)

theorem length_stringBody_le {s b : List Char} {a : List Nat} (h : stringBody s = some (a, b)) :
    b.length ≤ s.length := by
  fun_induction stringBody s generalizing a b <;>
    simp only [Option.map_eq_some_iff, Option.bind_eq_some_iff, Prod.mk.injEq, reduceCtorEq,
      Option.some.injEq] at h
  case case2 => obtain ⟨_, rfl⟩ := h; simp
  case case3 ih | case4 ih =>
    obtain ⟨_, _, ⟨x, y⟩, hx, _, rfl⟩ := h
    have := ih hx
    simp only [List.length_cons] at this ⊢
    omega
  case case6 ih =>
    obtain ⟨⟨x, y⟩, hx, _, rfl⟩ := h
    have := ih hx
    simp only [List.length_cons] at this ⊢
    omega

/-- A first half of a surrogate pair. -/
def isHigh (n : Nat) : Bool := 0xD800 ≤ n && n < 0xDC00

/-- A second half of a surrogate pair. -/
def isLow (n : Nat) : Bool := 0xDC00 ≤ n && n < 0xE000

/-- The characters of the code points; each half of a pair needs the other one beside it. -/
def joinPairs : List Nat → Option (List Char)
  | [] => some []
  | [n] => if isHigh n || isLow n then none else some [Char.ofNat n]
  | n :: m :: r =>
    if isLow n then none
    else if isHigh n then
      if isLow m then
        (joinPairs r).map (Char.ofNat (0x10000 + (n - 0xD800) * 0x400 + (m - 0xDC00)) :: ·)
      else none
    else (joinPairs (m :: r)).map (Char.ofNat n :: ·)

/-- The text up to the closing quote, and what follows the quote. -/
def string? (s : List Char) : Option (String × List Char) :=
  (stringBody s).bind fun p => (joinPairs p.1).map fun t => (String.ofList t, p.2)

theorem length_string_le {s b : List Char} {a : String} (h : string? s = some (a, b)) :
    b.length ≤ s.length := by
  simp only [string?, Option.bind_eq_some_iff, Option.map_eq_some_iff, Prod.mk.injEq] at h
  obtain ⟨⟨x, y⟩, hs, _, _, _, rfl⟩ := h
  exact length_stringBody_le hs

/-- Leading digits that fit 64 bits; `full` once one was left out. -/
structure Significand where
  value : Nat
  exponent : Int
  full : Bool

/-- Takes one more digit; a digit left out of a whole part still counts a power of ten. -/
def Significand.push (whole : Bool) (x : Significand) (c : Char) : Significand :=
  let n := 10 * x.value + Text.digitValue c
  if x.full ∨ UInt64.size ≤ n then
    { x with exponent := if whole then x.exponent + 1 else x.exponent, full := true }
  else ⟨n, if whole then x.exponent else x.exponent - 1, false⟩

/-- A power of ten as a double. -/
def tenTo (n : Nat) : Option Binary64 := Binary64.ofDecimal? false 1 n

/-- The value times a power of ten, in steps of at most `10^308`. -/
def scaleBy (x : Binary64) (exponent : Int) : Option Binary64 :=
  if exponent < -308 then
    if x.isZero then some x
    else (tenTo 308).bind fun p => (x.div? p).bind fun y => scaleBy y (exponent + 308)
  else if exponent < 0 then (tenTo exponent.natAbs).bind x.div?
  else if x.isZero then some x
  else if 308 < exponent then none
  else (tenTo exponent.natAbs).bind x.mul?
termination_by (-exponent).toNat
decreasing_by omega

/-- Digits without a superfluous zero in front. -/
def isWhole (s : List Char) : Bool :=
  match s with
  | [] => false
  | '0' :: r => r.isEmpty
  | _ => true

/-- The exponent part: the mark, a sign and digits. -/
def exponentPart? : List Char → Option Int
  | [] => some 0
  | c :: r =>
    if c = 'e' ∨ c = 'E' then
      let body := match r with
        | '-' :: ds | '+' :: ds => ds
        | ds => ds
      if body ≠ [] ∧ body.all Text.isDigit then
        some (if r.head? = some '-' then -(Text.digitsValue body : Int) else Text.digitsValue body)
      else none
    else none

/-- A number without its sign. -/
def unsignedNumber? (negative : Bool) (s : List Char) : Option JsonNumber :=
  let whole := Text.spanDigits s
  if !isWhole whole.1 then none
  else
    let start := whole.1.foldl (Significand.push true) ⟨0, 0, false⟩
    let scaledBy (x : Significand) (e : Int) : Option JsonNumber :=
      (Binary64.ofInt? x.value).bind fun d =>
        (scaleBy (if negative then d.neg else d) (x.exponent + e)).map .double
    match whole.2 with
    | [] =>
      if start.full then scaledBy start 0
      else if negative then
        if start.value = 0 ∨ 0x8000000000000000 < start.value then scaledBy start 0
        else some (.int (-start.value))
      else some (.int start.value)
    | '.' :: r =>
      let fraction := Text.spanDigits r
      if fraction.1 = [] then none
      else
        (exponentPart? fraction.2).bind
          (scaledBy (fraction.1.foldl (Significand.push false) { start with full := false }))
    | r => (exponentPart? r).bind (scaledBy start)

/-- The number that a lexeme denotes. -/
def number? : List Char → Option JsonNumber
  | '-' :: r => unsignedNumber? true r
  | r => unsignedNumber? false r

/-- Characters that numbers are made of. -/
def isNumberChar (c : Char) : Bool :=
  Text.isDigit c || c = '-' || c = '+' || c = '.' || c = 'e' || c = 'E'

theorem length_dropWhile_le (p : Char → Bool) (s : List Char) : (s.dropWhile p).length ≤ s.length :=
  (List.dropWhile_sublist p).length_le

/-- A value that is no container. -/
def scalar : (s : List Char) → Option (Step Json s)
  | 'n' :: 'u' :: 'l' :: 'l' :: r => some ⟨null, r, by simp only [List.length_cons]; omega⟩
  | 't' :: 'r' :: 'u' :: 'e' :: r => some ⟨bool true, r, by simp only [List.length_cons]; omega⟩
  | 'f' :: 'a' :: 'l' :: 's' :: 'e' :: r =>
    some ⟨bool false, r, by simp only [List.length_cons]; omega⟩
  | '"' :: r =>
    match h : string? r with
    | some (a, b) =>
      some ⟨str a, b, by have := length_string_le h; simp only [List.length_cons]; omega⟩
    | none => none
  | c :: r =>
    if isNumberChar c then
      (number? (c :: r.takeWhile isNumberChar)).map fun n =>
        ⟨num n, r.dropWhile isNumberChar, by
          have := length_dropWhile_le isNumberChar r; simp only [List.length_cons]; omega⟩
    else none
  | [] => none

/-- The items of an array up to its closing bracket, each read by `item`. -/
def items (item : (s : List Char) → Option (Step Json s)) (s : List Char) :
    Option (Step (List Json) s) :=
  match item s with
  | none => none
  | some x =>
    match h : skip x.rest with
    | ',' :: r =>
      have hr : r.length < s.length := by
        have a := length_skip_le x.rest; rw [h] at a; have := x.shorter
        simp only [List.length_cons] at *; omega
      (items item r).map fun t => ⟨x.value :: t.value, t.rest, by have := t.shorter; omega⟩
    | ']' :: r =>
      some ⟨[x.value], r, by
        have := length_skip_le x.rest; rw [h] at this; have := x.shorter
        simp only [List.length_cons] at *; omega⟩
    | _ => none
termination_by s.length

/-- The members of an object up to its closing brace, each value read by `item`. -/
def pairs (item : (s : List Char) → Option (Step Json s)) (s : List Char) :
    Option (Step (List (String × Json)) s) :=
  match hs : skip s with
  | '"' :: q =>
    match hq : string? q with
    | none => none
    | some (key, afterKey) =>
      match hc : skip afterKey with
      | ':' :: v =>
        match item v with
        | none => none
        | some x =>
          have h0 : v.length < s.length := by
            have a := length_skip_le s
            have b := length_string_le hq
            have c := length_skip_le afterKey
            rw [hs] at a; rw [hc] at c
            simp only [List.length_cons] at *; omega
          match h : skip x.rest with
          | ',' :: r =>
            have hr : r.length < s.length := by
              have a := length_skip_le x.rest
              have b := x.shorter
              rw [h] at a
              simp only [List.length_cons] at *; omega
            (pairs item r).map fun t =>
              ⟨(key, x.value) :: t.value, t.rest, by have := t.shorter; omega⟩
          | c :: r =>
            if c = Char.ofNat 125 then
              some ⟨[(key, x.value)], r, by
                have a := length_skip_le x.rest
                have b := x.shorter
                rw [h] at a
                simp only [List.length_cons] at *; omega⟩
            else none
          | [] => none
      | _ => none
  | _ => none
termination_by s.length

/-- A value behind blanks, with at most `depth` containers inside each other. -/
def value : (depth : Nat) → (s : List Char) → Option (Step Json s)
  | depth, s =>
    match h : skip s with
    | [] => none
    | c :: r =>
      have hr : r.length < s.length := by
        have a := length_skip_le s; rw [h] at a; simp only [List.length_cons] at a; omega
      if c = '[' then
        match depth with
        | 0 => none
        | d + 1 =>
          match hb : skip r with
          | ']' :: t =>
            some ⟨arr [], t, by
              have a := length_skip_le r; rw [hb] at a; simp only [List.length_cons] at a; omega⟩
          | _ => (items (value d) r).map fun t => ⟨arr t.value, t.rest, by have := t.shorter; omega⟩
      else if c = Char.ofNat 123 then
        match depth with
        | 0 => none
        | d + 1 =>
          match hb : skip r with
          | e :: t =>
            if e = Char.ofNat 125 then
              some ⟨obj [], t, by
                have a := length_skip_le r; rw [hb] at a; simp only [List.length_cons] at a; omega⟩
            else
              (pairs (value d) r).map fun t =>
                ⟨obj (Members.ofList t.value), t.rest, by have := t.shorter; omega⟩
          | [] => none
      else
        (scalar (c :: r)).map fun t => ⟨t.value, t.rest, by
          have a := length_skip_le s; rw [h] at a; have := t.shorter; omega⟩

/-- The value of a whole document. -/
def parse? (text : String) : Option Json :=
  (value 127 text.toList).bind fun t => if (skip t.rest).isEmpty then some t.value else none

end LedgerFront.Json
