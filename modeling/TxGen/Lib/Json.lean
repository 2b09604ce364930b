import TxGen.Lib.Utf8

/-!
# JSON

Reading JSON texts from bytes. `value d` reads one value, nested at most `d` deep, and
leaves what follows; `document` wants nothing but blanks to follow. `Text d v s` says that
`s` is a text of `v`, with blanks before it and in it wherever JSON allows them, and
strings written with or without escapes. A value is read exactly when there is a text of
it (`value_iff`), so that a text that has been cut off is never taken for a shorter one
(`document_of_append`).

Numbers are kept as they are written. In a string, what is no character and an unpaired
surrogate are read as U+FFFD.
-/

namespace Lib

/-- A JSON value. -/
inductive Json
  | null
  | bool (b : Bool)
  | number (literal : List Utf8.Byte)
  | string (s : List Char)
  | array (items : List Json)
  | object (members : List (List Char × Json))

namespace Json

mutual

/-- Equality of values is decidable. -/
def decEq : (a b : Json) → Decidable (a = b)
  | .null, .null => isTrue rfl
  | .bool b, .bool c => decidable_of_iff (b = c) (by simp)
  | .number l, .number m => decidable_of_iff (l = m) (by simp)
  | .string s, .string t => decidable_of_iff (s = t) (by simp)
  | .array l, .array m => @decidable_of_iff _ (l = m) (by simp) (decEqItems l m)
  | .object l, .object m => @decidable_of_iff _ (l = m) (by simp) (decEqMembers l m)
  | .null, .bool _ | .null, .number _ | .null, .string _ | .null, .array _ | .null, .object _
  | .bool _, .null | .bool _, .number _ | .bool _, .string _ | .bool _, .array _
  | .bool _, .object _ | .number _, .null | .number _, .bool _ | .number _, .string _
  | .number _, .array _ | .number _, .object _ | .string _, .null | .string _, .bool _
  | .string _, .number _ | .string _, .array _ | .string _, .object _ | .array _, .null
  | .array _, .bool _ | .array _, .number _ | .array _, .string _ | .array _, .object _
  | .object _, .null | .object _, .bool _ | .object _, .number _ | .object _, .string _
  | .object _, .array _ => isFalse nofun

def decEqItems : (l m : List Json) → Decidable (l = m)
  | [], [] => isTrue rfl
  | [], _ :: _ => isFalse nofun
  | _ :: _, [] => isFalse nofun
  | a :: l, b :: m =>
    @decidable_of_iff _ (a = b ∧ l = m) (by simp)
      (@instDecidableAnd _ _ (decEq a b) (decEqItems l m))

def decEqMembers : (l m : List (List Char × Json)) → Decidable (l = m)
  | [], [] => isTrue rfl
  | [], _ :: _ => isFalse nofun
  | _ :: _, [] => isFalse nofun
  | (k, a) :: l, (k', b) :: m =>
    @decidable_of_iff _ ((k = k' ∧ a = b) ∧ l = m) (by simp)
      (@instDecidableAnd _ _ (@instDecidableAnd _ _ inferInstance (decEq a b)) (decEqMembers l m))

end

instance : DecidableEq Json := decEq

open Utf8

variable {α : Type}

/-- Reads a value off the front of a text, and leaves the rest. -/
abbrev Parser (α : Type) := List Byte → Option (α × List Byte)

def quote : Byte := 0x22

def backslash : Byte := 0x5c

def comma : Byte := 0x2c

def colon : Byte := 0x3a

def lbracket : Byte := 0x5b

def rbracket : Byte := 0x5d

def lbrace : Byte := 0x7b

def rbrace : Byte := 0x7d

/-- Space, tab, line feed and carriage return. -/
def blank (b : Byte) : Bool := b = 0x20 || b = 0x09 || b = 0x0a || b = 0x0d

def skip (s : List Byte) : List Byte := s.dropWhile blank

/-! ## Numbers -/

def isDigit (b : Byte) : Bool := 0x30 ≤ b.val && b.val ≤ 0x39

/-- Digits, signs, the point and the letter of an exponent. -/
def inNumber (b : Byte) : Bool :=
  isDigit b || b = 0x2b || b = 0x2d || b = 0x2e || b = 0x45 || b = 0x65

/-- The part of a number after its fraction. -/
def isExponent : List Byte → Bool
  | [] => true
  | e :: s =>
    (e = 0x45 || e = 0x65) &&
      match s with
      | [] => false
      | sign :: t =>
        if sign = 0x2b || sign = 0x2d then !t.isEmpty && t.all isDigit
        else (sign :: t).all isDigit

/-- The part of a number after its integer. -/
def isFraction : List Byte → Bool
  | [] => true
  | b :: s =>
    if b = 0x2e then !(s.takeWhile isDigit).isEmpty && isExponent (s.dropWhile isDigit)
    else isExponent (b :: s)

/-- A number without its sign. -/
def isUnsigned (s : List Byte) : Bool :=
  (match s.takeWhile isDigit with
    | [] => false
    | [_] => true
    | d :: _ => d ≠ 0x30) &&
    isFraction (s.dropWhile isDigit)

def isNumber : List Byte → Bool
  | [] => false
  | b :: s => if b = 0x2d then isUnsigned s else isUnsigned (b :: s)

/-- The value of decimal digits, most significant first. -/
def digitsValue (l : List Byte) : ℕ := l.foldl (fun n b => n * 10 + (b.val - 0x30)) 0

/-- The value of a number that is written with digits only. -/
def natLiteral (l : List Byte) : Option ℕ :=
  if l ≠ [] ∧ l.all isDigit then some (digitsValue l) else none

/-- The value of a number that is written with digits only, after its sign. -/
def intLiteral : List Byte → Option ℤ
  | [] => none
  | b :: l => if b = 0x2d then (natLiteral l).map fun n : ℕ => -(n : ℤ) else (natLiteral (b :: l)).map Nat.cast

/-! ## Strings -/

def isHex (b : Byte) : Bool :=
  isDigit b || (0x41 ≤ b.val && b.val ≤ 0x46) || (0x61 ≤ b.val && b.val ≤ 0x66)

/-- What may stand behind a backslash, but for the letter of a code. -/
def isEscape (b : Byte) : Bool :=
  b = quote || b = backslash || b = 0x2f || b = 0x62 || b = 0x66 || b = 0x6e || b = 0x72 || b = 0x74

/-- What may stand in a string as it is. -/
def isPlain (b : Byte) : Bool := 0x20 ≤ b.val && b ≠ quote && b ≠ backslash

/-- The inside of a string and what follows its closing quote. -/
def scanString : Parser (List Byte)
  | [] => none
  | b :: s =>
    if b = quote then some ([], s)
    else if isPlain b then (scanString s).map fun x => (b :: x.1, x.2)
    else
      match s with
      | e :: t =>
        if b = backslash ∧ isEscape e then (scanString t).map fun x => (b :: e :: x.1, x.2)
        else
          match t with
          | c₁ :: c₂ :: c₃ :: c₄ :: u =>
            if b = backslash ∧ e = 0x75 ∧ isHex c₁ ∧ isHex c₂ ∧ isHex c₃ ∧ isHex c₄ then
              (scanString u).map fun x => (b :: e :: c₁ :: c₂ :: c₃ :: c₄ :: x.1, x.2)
            else none
          | _ => none
      | [] => none

/-- The value of a hexadecimal digit. -/
def hexDigit (c : Char) : ℕ :=
  if c.toNat ≤ 0x39 then c.toNat - 0x30
  else if c.toNat ≤ 0x46 then c.toNat - 0x37
  else c.toNat - 0x57

/-- The value of four hexadecimal digits. -/
def hexCode (c₁ c₂ c₃ c₄ : Char) : ℕ :=
  ((hexDigit c₁ * 16 + hexDigit c₂) * 16 + hexDigit c₃) * 16 + hexDigit c₄

/-- The character that stands behind a backslash, but for codes. -/
def unescaped (c : Char) : Char :=
  if c = 'b' then '\x08'
  else if c = 'f' then '\x0c'
  else if c = 'n' then '\n'
  else if c = 'r' then '\r'
  else if c = 't' then '\t'
  else c

/-- A code by itself, or U+FFFD for a surrogate. -/
def codeChar (n : ℕ) : Char := if 0xd800 ≤ n ∧ n < 0xe000 then replacement else Char.ofNat n

/-- The character of two surrogates. -/
def surrogates (high low : ℕ) : Option Char :=
  if 0xd800 ≤ high ∧ high < 0xdc00 ∧ 0xdc00 ≤ low ∧ low < 0xe000 then
    some (Char.ofNat (0x10000 + (high - 0xd800) * 0x400 + (low - 0xdc00)))
  else none

/-- The characters that are meant, from those inside the quotes. -/
def unescape : List Char → List Char
  | [] => []
  | '\\' :: 'u' :: c₁ :: c₂ :: c₃ :: c₄ :: '\\' :: 'u' :: d₁ :: d₂ :: d₃ :: d₄ :: s =>
    match surrogates (hexCode c₁ c₂ c₃ c₄) (hexCode d₁ d₂ d₃ d₄) with
    | some c => c :: unescape s
    | none => codeChar (hexCode c₁ c₂ c₃ c₄) :: unescape ('\\' :: 'u' :: d₁ :: d₂ :: d₃ :: d₄ :: s)
  | '\\' :: 'u' :: c₁ :: c₂ :: c₃ :: c₄ :: s => codeChar (hexCode c₁ c₂ c₃ c₄) :: unescape s
  | '\\' :: c :: s => unescaped c :: unescape s
  | c :: s => c :: unescape s

/-- The string that `raw` is the inside of. -/
def unquote (raw : List Byte) : List Char := unescape (runes raw)

/-! ## Values -/

/-- The word `w`, read as `v`. -/
def word (w : List Byte) (v : Json) : Parser Json := fun s =>
  if w.isPrefixOf s then some (v, s.drop w.length) else none

def trueText : List Byte := [0x74, 0x72, 0x75, 0x65]

def falseText : List Byte := [0x66, 0x61, 0x6c, 0x73, 0x65]

def nullText : List Byte := [0x6e, 0x75, 0x6c, 0x6c]

/-- A value that is neither array nor object. -/
def scalar : Parser Json
  | [] => none
  | b :: s =>
    if b = quote then (scanString s).map fun x => (.string (unquote x.1), x.2)
    else if inNumber b then
      let literal := (b :: s).takeWhile inNumber
      if isNumber literal then some (.number literal, (b :: s).dropWhile inNumber) else none
    else
      ((word trueText (.bool true) (b :: s)).or (word falseText (.bool false) (b :: s))).or
        (word nullText .null (b :: s))

/-- At least one item, with commas between them, up to `close`. -/
def items (item : Parser α) (close : Byte) : ℕ → Parser (List α)
  | 0, _ => none
  | n + 1, s =>
    (item s).bind fun x =>
      match skip x.2 with
      | [] => none
      | b :: t =>
        if b = close then some ([x.1], t)
        else if b = comma then (items item close n t).map fun y => (x.1 :: y.1, y.2)
        else none

/-- The inside of an array or object, up to `close`. -/
def body (item : Parser α) (close : Byte) : Parser (List α) := fun s =>
  match skip s with
  | [] => none
  | b :: t => if b = close then some ([], t) else items item close s.length s

/-- A member of an object. -/
def member (value : Parser Json) : Parser (List Char × Json) := fun s =>
  match skip s with
  | [] => none
  | b :: t =>
    if b = quote then
      (scanString t).bind fun x =>
        match skip x.2 with
        | [] => none
        | c :: u => if c = colon then (value u).map fun y => ((unquote x.1, y.1), y.2) else none
    else none

/-- A value, nested at most `d` deep. -/
def value : ℕ → Parser Json
  | 0, s => scalar (skip s)
  | d + 1, s =>
    match skip s with
    | [] => none
    | b :: t =>
      if b = lbracket then (body (value d) rbracket t).map fun x => (.array x.1, x.2)
      else if b = lbrace then (body (member (value d)) rbrace t).map fun x => (.object x.1, x.2)
      else scalar (b :: t)

/-- A text that is one value. -/
def document (d : ℕ) (s : List Byte) : Option Json :=
  match value d s with
  | some (v, r) => if r.all blank then some v else none
  | none => none

/-! ## Texts of values -/

def Blank (w : List Byte) : Prop := ∀ b ∈ w, blank b = true

/-- What may stand between the quotes of a string. -/
inductive Inside : List Byte → Prop
  | nil : Inside []
  | plain {b : Byte} {s : List Byte} (hb : isPlain b = true) (h : Inside s) : Inside (b :: s)
  | escape {e : Byte} {s : List Byte} (he : isEscape e = true) (h : Inside s) :
    Inside (backslash :: e :: s)
  | code {c₁ c₂ c₃ c₄ : Byte} {s : List Byte}
    (hc : isHex c₁ = true ∧ isHex c₂ = true ∧ isHex c₃ = true ∧ isHex c₄ = true) (h : Inside s) :
    Inside (backslash :: 0x75 :: c₁ :: c₂ :: c₃ :: c₄ :: s)

/-- A text of a value that is neither array nor object. -/
inductive ScalarText : Json → List Byte → Prop
  | null : ScalarText .null nullText
  | boolTrue : ScalarText (.bool true) trueText
  | boolFalse : ScalarText (.bool false) falseText
  | number {literal : List Byte} (h : isNumber literal = true) : ScalarText (.number literal) literal
  | string {raw : List Byte} (h : Inside raw) :
    ScalarText (.string (unquote raw)) (quote :: (raw ++ [quote]))

/-- A text with blanks before it. -/
def Spaced (T : α → List Byte → Prop) (a : α) (s : List Byte) : Prop :=
  ∃ w t, s = w ++ t ∧ Blank w ∧ T a t

/-- A text of at least one item, up to and with `close`. -/
inductive Items (T : α → List Byte → Prop) (close : Byte) : List α → List Byte → Prop
  | last {a : α} {t w : List Byte} (ht : T a t) (hw : Blank w) :
    Items T close [a] (t ++ (w ++ [close]))
  | cons {a : α} {l : List α} {t w s : List Byte} (ht : T a t) (hw : Blank w)
    (hs : Items T close l s) : Items T close (a :: l) (t ++ (w ++ comma :: s))

/-- A text of the inside of an array or object. -/
inductive BodyText (T : α → List Byte → Prop) (close : Byte) : List α → List Byte → Prop
  | nil {w : List Byte} (hw : Blank w) : BodyText T close [] (w ++ [close])
  | items {l : List α} {s : List Byte} (h : Items T close l s) : BodyText T close l s

/-- A text of a member, without the blanks before it. -/
inductive MemberText (T : Json → List Byte → Prop) : List Char × Json → List Byte → Prop
  | mk {raw w t : List Byte} {v : Json} (hraw : Inside raw) (hw : Blank w) (ht : T v t) :
    MemberText T (unquote raw, v) (quote :: (raw ++ quote :: (w ++ colon :: t)))

/-- A text of a value without the blanks before it, where `T` are the texts of those
inside it. -/
inductive NestedText (T : Json → List Byte → Prop) : Json → List Byte → Prop
  | scalar {v : Json} {s : List Byte} (h : ScalarText v s) : NestedText T v s
  | array {l : List Json} {s : List Byte} (h : BodyText T rbracket l s) :
    NestedText T (.array l) (lbracket :: s)
  | object {l : List (List Char × Json)} {s : List Byte}
    (h : BodyText (Spaced (MemberText T)) rbrace l s) : NestedText T (.object l) (lbrace :: s)

/-- A text of a value that is nested at most `d` deep. -/
def Text : ℕ → Json → List Byte → Prop
  | 0 => Spaced ScalarText
  | d + 1 => Spaced (NestedText (Text d))

/-- The end of a value shows without what follows it. -/
def Closed : Json → Prop
  | .number _ => False
  | _ => True

/-- What follows is not part of a number. -/
def Ends (r : List Byte) : Prop := ∀ b ∈ r.head?, inNumber b = false

/-- `p` reads `a` exactly where there is a text of it, and `a` is closed or what follows
is not part of it. -/
def Exact (p : Parser α) (T : α → List Byte → Prop) (closed : α → Prop) : Prop :=
  ∀ s a r, p s = some (a, r) ↔ ∃ t, s = t ++ r ∧ T a t ∧ (closed a ∨ Ends r)

/-! ## Blanks -/

theorem skip_append {w : List Byte} (hw : Blank w) (s : List Byte) : skip (w ++ s) = skip s :=
  List.dropWhile_append_of_pos hw

theorem skip_cons {b : Byte} (hb : blank b = false) (s : List Byte) : skip (b :: s) = b :: s := by
  rw [skip, List.dropWhile_cons, hb]
  rfl

theorem skip_blank {w : List Byte} (hw : Blank w) {b : Byte} (hb : blank b = false) (s : List Byte) :
    skip (w ++ b :: s) = b :: s := by
  rw [skip_append hw, skip_cons hb]

/-- What is skipped. -/
theorem exists_skip (s : List Byte) : ∃ w, Blank w ∧ s = w ++ skip s :=
  ⟨s.takeWhile blank, fun _ hb => List.mem_takeWhile_imp hb, (List.takeWhile_append_dropWhile).symm⟩

theorem not_inNumber_of_blank {b : Byte} (hb : blank b = true) : inNumber b = false := by
  simp only [blank, Bool.or_eq_true, decide_eq_true_eq] at hb
  rcases hb with ((rfl | rfl) | rfl) | rfl <;> rfl

theorem ends_append {w : List Byte} (hw : Blank w) {b : Byte} (hb : inNumber b = false)
    (s : List Byte) : Ends (w ++ b :: s) := by
  intro c hc
  cases w with
  | nil =>
    rw [List.nil_append, List.head?_cons, Option.mem_some_iff] at hc
    exact hc ▸ hb
  | cons a w =>
    rw [List.cons_append, List.head?_cons, Option.mem_some_iff] at hc
    exact hc ▸ not_inNumber_of_blank (hw a List.mem_cons_self)

/-! ## Strings -/

theorem scanString_inside {raw : List Byte} (h : Inside raw) (r : List Byte) :
    scanString (raw ++ quote :: r) = some (raw, r) := by
  induction h with
  | nil =>
    rw [List.nil_append, scanString.eq_def]
    simp
  | @plain b s hb h ih =>
    have hne : b ≠ quote := by
      rintro rfl
      exact absurd hb (by decide)
    rw [List.cons_append, scanString.eq_def]
    simp [hne, hb, ih]
  | @escape e s he h ih =>
    rw [List.cons_append, List.cons_append, scanString.eq_def]
    simp only [show ¬backslash = quote by decide, show isPlain backslash = false by decide, he, ih]
    simp
  | @code c₁ c₂ c₃ c₄ s hc h ih =>
    simp only [List.cons_append]
    rw [scanString.eq_def]
    simp only [show ¬backslash = quote by decide, show isPlain backslash = false by decide, hc, ih,
      show isEscape 0x75 = false by decide]
    simp

theorem inside_of_scanString {s raw r : List Byte} (h : scanString s = some (raw, r)) :
    Inside raw ∧ s = raw ++ quote :: r := by
  fun_induction scanString s generalizing raw with
  | case1 => cases h
  | case2 s =>
    cases h
    exact ⟨.nil, rfl⟩
  | case3 b s _ hb ih =>
    obtain ⟨⟨raw', r'⟩, hs, hx⟩ := Option.map_eq_some_iff.1 h
    cases hx
    obtain ⟨hin, rfl⟩ := ih hs
    exact ⟨.plain hb hin, rfl⟩
  | case4 b _ _ e t he ih =>
    obtain ⟨⟨raw', r'⟩, hs, hx⟩ := Option.map_eq_some_iff.1 h
    cases hx
    obtain ⟨hin, rfl⟩ := ih hs
    obtain ⟨rfl, he⟩ := he
    exact ⟨.escape he hin, rfl⟩
  | case5 b _ _ e _ c₁ c₂ c₃ c₄ u hc ih =>
    obtain ⟨⟨raw', r'⟩, hs, hx⟩ := Option.map_eq_some_iff.1 h
    cases hx
    obtain ⟨hin, rfl⟩ := ih hs
    obtain ⟨rfl, rfl, hc⟩ := hc
    exact ⟨.code hc hin, rfl⟩
  | case6 => cases h
  | case7 => cases h
  | case8 => cases h

theorem scanString_iff {s raw r : List Byte} :
    scanString s = some (raw, r) ↔ s = raw ++ quote :: r ∧ Inside raw :=
  ⟨fun h => (inside_of_scanString h).symm, fun ⟨hs, h⟩ => hs ▸ scanString_inside h r⟩

/-! ## Scalars -/

theorem Ends.span {r : List Byte} (h : Ends r) :
    r.takeWhile inNumber = [] ∧ r.dropWhile inNumber = r := by
  cases r with
  | nil => exact ⟨rfl, rfl⟩
  | cons b r =>
    have hb : inNumber b = false := h b rfl
    simp [hb]

theorem inNumber_of_isDigit {b : Byte} (h : isDigit b = true) : inNumber b = true := by
  simp [inNumber, h]

theorem inNumber_of_isExponent {s : List Byte} (h : isExponent s = true) :
    ∀ b ∈ s, inNumber b = true := by
  cases s with
  | nil => nofun
  | cons e s =>
    cases s with
    | nil => simp [isExponent] at h
    | cons sign t =>
      simp only [isExponent, Bool.and_eq_true, Bool.or_eq_true, decide_eq_true_eq] at h
      obtain ⟨he, hs⟩ := h
      intro b hb
      rcases List.mem_cons.1 hb with rfl | hb
      · rcases he with rfl | rfl <;> rfl
      · split_ifs at hs with hsign
        · rcases List.mem_cons.1 hb with rfl | hb
          · rcases hsign with rfl | rfl <;> rfl
          · exact inNumber_of_isDigit (List.all_eq_true.1 (Bool.and_eq_true_iff.1 hs).2 b hb)
        · exact inNumber_of_isDigit (List.all_eq_true.1 hs b hb)

theorem inNumber_of_isFraction {s : List Byte} (h : isFraction s = true) :
    ∀ b ∈ s, inNumber b = true := by
  cases s with
  | nil => nofun
  | cons p s =>
    simp only [isFraction] at h
    split_ifs at h with hp
    · intro b hb
      rcases List.mem_cons.1 hb with rfl | hb
      · rw [hp]
        rfl
      · rw [← List.takeWhile_append_dropWhile (p := isDigit) (l := s)] at hb
        rcases List.mem_append.1 hb with hb | hb
        · exact inNumber_of_isDigit (List.mem_takeWhile_imp hb)
        · exact inNumber_of_isExponent (Bool.and_eq_true_iff.1 h).2 b hb
    · exact inNumber_of_isExponent h

theorem inNumber_of_isUnsigned {s : List Byte} (h : isUnsigned s = true) :
    s ≠ [] ∧ ∀ b ∈ s, inNumber b = true := by
  obtain ⟨hint, hfrac⟩ := Bool.and_eq_true_iff.1 h
  constructor
  · rintro rfl
    simp at hint
  · intro b hb
    rw [← List.takeWhile_append_dropWhile (p := isDigit) (l := s)] at hb
    rcases List.mem_append.1 hb with hb | hb
    · exact inNumber_of_isDigit (List.mem_takeWhile_imp hb)
    · exact inNumber_of_isFraction hfrac b hb

theorem inNumber_of_isNumber {s : List Byte} (h : isNumber s = true) :
    s ≠ [] ∧ ∀ b ∈ s, inNumber b = true := by
  cases s with
  | nil => cases h
  | cons m s =>
    refine ⟨nofun, ?_⟩
    simp only [isNumber] at h
    split_ifs at h with hm
    · intro b hb
      rcases List.mem_cons.1 hb with rfl | hb
      · rw [hm]
        rfl
      · exact (inNumber_of_isUnsigned h).2 b hb
    · exact (inNumber_of_isUnsigned h).2

theorem word_iff {w s r : List Byte} {v v' : Json} :
    word w v s = some (v', r) ↔ s = w ++ r ∧ v' = v := by
  rw [word]
  constructor
  · intro h
    split_ifs at h with hw
    cases h
    obtain ⟨t, rfl⟩ := List.isPrefixOf_iff_prefix.1 hw
    exact ⟨by rw [List.drop_left], rfl⟩
  · rintro ⟨rfl, rfl⟩
    rw [if_pos (List.isPrefixOf_iff_prefix.2 ⟨r, rfl⟩), List.drop_left]

theorem scalar_exact : Exact scalar ScalarText Closed := by
  intro s v r
  constructor
  · intro h
    cases s with
    | nil => cases h
    | cons b s =>
      simp only [scalar] at h
      split_ifs at h with hquote hin hnum
      · obtain ⟨⟨raw, r'⟩, hscan, hx⟩ := Option.map_eq_some_iff.1 h
        cases hx
        obtain ⟨rfl, hraw⟩ := scanString_iff.1 hscan
        exact ⟨quote :: (raw ++ [quote]), by simp [hquote], .string hraw, .inl trivial⟩
      · cases h
        refine ⟨_, (List.takeWhile_append_dropWhile).symm, .number hnum, .inr ?_⟩
        intro c hc
        exact head_dropWhile hc
      · rcases Option.or_eq_some_iff.1 h with h | ⟨-, h⟩
        · rcases Option.or_eq_some_iff.1 h with h | ⟨-, h⟩
          · obtain ⟨hs, rfl⟩ := word_iff.1 h
            exact ⟨trueText, hs, .boolTrue, .inl trivial⟩
          · obtain ⟨hs, rfl⟩ := word_iff.1 h
            exact ⟨falseText, hs, .boolFalse, .inl trivial⟩
        · obtain ⟨hs, rfl⟩ := word_iff.1 h
          exact ⟨nullText, hs, .null, .inl trivial⟩
  · rintro ⟨t, rfl, ht, hend⟩
    cases ht with
    | null => rfl
    | boolTrue => rfl
    | boolFalse => rfl
    | string hraw =>
      rename_i raw
      rw [List.cons_append, scalar, if_pos rfl, List.append_assoc]
      rw [show [quote] ++ r = quote :: r from rfl, scanString_inside hraw]
      rfl
    | number hnum =>
      obtain ⟨hne, hall⟩ := inNumber_of_isNumber hnum
      obtain ⟨htake, hdrop⟩ := (hend.resolve_left id).span
      obtain ⟨b, s, rfl⟩ := List.exists_cons_of_ne_nil hne
      have hb := hall b List.mem_cons_self
      have hquote : b ≠ quote := by
        rintro rfl
        exact absurd hb (by decide)
      have htake' : (b :: (s ++ r)).takeWhile inNumber = b :: s := by
        rw [← List.cons_append, List.takeWhile_append_of_pos hall, htake, List.append_nil]
      have hdrop' : (b :: (s ++ r)).dropWhile inNumber = r := by
        rw [← List.cons_append, List.dropWhile_append_of_pos hall, hdrop]
      simp only [List.cons_append, scalar, if_neg hquote, hb, if_true, htake', hdrop', hnum]

/-! ## Lists of items -/

section Items

variable {item : Parser α} {T : α → List Byte → Prop} {closed : α → Prop} {close : Byte}

/-- An item is followed by blanks and a separator, neither of them part of a number. -/
theorem Exact.followed (h : Exact item T closed) {a : α} {t w : List Byte} {b : Byte} (ht : T a t)
    (hw : Blank w) (hb : inNumber b = false) (s : List Byte) :
    item (t ++ (w ++ b :: s)) = some (a, w ++ b :: s) :=
  (h _ _ _).2 ⟨t, rfl, ht, .inr (ends_append hw hb s)⟩

theorem items_of_text (h : Exact item T closed) (hclose : blank close = false)
    (hnum : inNumber close = false) (hcomma : close ≠ comma) {l : List α} {t : List Byte}
    (ht : Items T close l t) (r : List Byte) {n : ℕ} (hn : l.length ≤ n) :
    items item close n (t ++ r) = some (l, r) := by
  induction ht generalizing n with
  | @last a t w ht hw =>
    cases n with
    | zero => simp at hn
    | succ n =>
      have hitem := h.followed ht hw hnum r
      simp only [List.append_assoc, List.singleton_append, items, hitem, Option.bind_some,
        skip_blank hw hclose, if_true]
  | @cons a l t w s ht hw hs ih =>
    cases n with
    | zero => simp at hn
    | succ n =>
      have hitem := h.followed ht hw (b := comma) rfl (s ++ r)
      simp only [List.append_assoc, List.cons_append, items, hitem, Option.bind_some,
        skip_blank hw (b := comma) rfl, if_neg hcomma.symm, if_true, ih (Nat.le_of_succ_le_succ hn)]
      rfl

theorem text_of_items (h : Exact item T closed) {n : ℕ} {s r : List Byte} {l : List α}
    (hs : items item close n s = some (l, r)) : ∃ t, s = t ++ r ∧ Items T close l t := by
  induction n generalizing s l with
  | zero => cases hs
  | succ n ih =>
    obtain ⟨⟨a, r₁⟩, hitem, hrest⟩ := Option.bind_eq_some_iff.1 hs
    obtain ⟨t, rfl, ht, -⟩ := (h _ _ _).1 hitem
    obtain ⟨w, hw, hr₁⟩ := exists_skip r₁
    dsimp only at hrest
    cases hskip : skip r₁ with
    | nil =>
      rw [hskip] at hrest
      cases hrest
    | cons b u =>
      rw [hskip] at hrest hr₁
      dsimp only at hrest
      subst hr₁
      split_ifs at hrest with hb hcomma
      · cases hrest
        subst hb
        exact ⟨t ++ (w ++ [b]), by simp, .last ht hw⟩
      · obtain ⟨⟨l', r'⟩, hitems, hx⟩ := Option.map_eq_some_iff.1 hrest
        cases hx
        obtain ⟨t', rfl, ht'⟩ := ih hitems
        subst hcomma
        exact ⟨t ++ (w ++ comma :: t'), by simp, .cons ht hw ht'⟩

theorem Items.length_le {l : List α} {t : List Byte} (h : Items T close l t) : l.length ≤ t.length := by
  induction h with
  | last => simp; omega
  | cons _ _ _ ih => simp; omega

/-- No text of an item begins like the end of the list. -/
def Opens (T : α → List Byte → Prop) (close : Byte) : Prop :=
  ∀ a t, T a t → ∃ w b u, t = w ++ b :: u ∧ Blank w ∧ blank b = false ∧ b ≠ close

/-- A text of items begins like its first item. -/
theorem Items.opens (hopens : Opens T close) {l : List α} {t : List Byte} (h : Items T close l t) :
    ∃ w b u, t = w ++ b :: u ∧ Blank w ∧ blank b = false ∧ b ≠ close := by
  cases h with
  | last ht hw =>
    obtain ⟨w', b, u, rfl, hw', hb, hne⟩ := hopens _ _ ht
    exact ⟨w', b, _, by rw [List.append_assoc, List.cons_append], hw', hb, hne⟩
  | cons ht hw hs =>
    obtain ⟨w', b, u, rfl, hw', hb, hne⟩ := hopens _ _ ht
    exact ⟨w', b, _, by rw [List.append_assoc, List.cons_append], hw', hb, hne⟩

theorem body_exact (h : Exact item T closed) (hclose : blank close = false)
    (hnum : inNumber close = false) (hcomma : close ≠ comma) (hopens : Opens T close) :
    Exact (body item close) (BodyText T close) fun _ => True := by
  intro s l r
  constructor
  · intro hs
    obtain ⟨w, hw, hsw⟩ := exists_skip s
    rw [body] at hs
    cases hskip : skip s with
    | nil =>
      rw [hskip] at hs
      cases hs
    | cons b t =>
      rw [hskip] at hs hsw
      dsimp only at hs
      split_ifs at hs with hb
      · cases hs
        subst hb
        exact ⟨w ++ [b], by simp [hsw], .nil hw, .inl trivial⟩
      · obtain ⟨t', rfl, ht'⟩ := text_of_items h hs
        exact ⟨t', rfl, .items ht', .inl trivial⟩
  · rintro ⟨t, rfl, ht, -⟩
    cases ht with
    | @nil w hw =>
      rw [body, List.append_assoc, List.singleton_append, skip_blank hw hclose]
      exact if_pos rfl
    | items ht =>
      obtain ⟨w, b, u, hu, hw, hb, hne⟩ := ht.opens hopens
      have hskip : skip (t ++ r) = b :: (u ++ r) := by
        rw [hu, List.append_assoc, List.cons_append, skip_blank hw hb]
      have hlen : l.length ≤ (t ++ r).length := by
        have := ht.length_le
        rw [List.length_append]
        omega
      rw [body, hskip]
      dsimp only
      rw [if_neg hne]
      exact items_of_text h hclose hnum hcomma ht r hlen

end Items

/-! ## Values -/

theorem member_exact {p : Parser Json} {T : Json → List Byte → Prop} (h : Exact p T Closed) :
    Exact (member p) (Spaced (MemberText T)) fun m => Closed m.2 := by
  intro s m r
  constructor
  · intro hs
    obtain ⟨w, hw, hsw⟩ := exists_skip s
    rw [member] at hs
    cases hskip : skip s with
    | nil =>
      rw [hskip] at hs
      cases hs
    | cons b t =>
      rw [hskip] at hs hsw
      dsimp only at hs
      split_ifs at hs with hb
      obtain ⟨⟨raw, r₁⟩, hscan, hrest⟩ := Option.bind_eq_some_iff.1 hs
      obtain ⟨rfl, hraw⟩ := scanString_iff.1 hscan
      obtain ⟨w₁, hw₁, hr₁⟩ := exists_skip r₁
      dsimp only at hrest
      cases hskip₁ : skip r₁ with
      | nil =>
        rw [hskip₁] at hrest
        cases hrest
      | cons c u =>
        rw [hskip₁] at hrest hr₁
        dsimp only at hrest
        split_ifs at hrest with hc
        obtain ⟨⟨v, r₂⟩, hval, hx⟩ := Option.map_eq_some_iff.1 hrest
        cases hx
        obtain ⟨t, rfl, ht, hend⟩ := (h _ _ _).1 hval
        subst hb hc hr₁ hsw
        exact ⟨_, by simp, ⟨w, _, rfl, hw, .mk hraw hw₁ ht⟩, hend⟩
  · rintro ⟨t, rfl, ⟨w, t, rfl, hw, ht⟩, hend⟩
    cases ht with
    | @mk raw w' t v hraw hw' ht =>
      have hval : p (t ++ r) = some (v, r) := (h _ _ _).2 ⟨t, rfl, ht, hend⟩
      simp only [member, List.append_assoc, List.cons_append, skip_blank hw (b := quote) rfl, if_true,
        scanString_inside hraw, Option.bind_some, skip_blank hw' (b := colon) rfl, hval]
      rfl

/-- No text of a value begins with a closing bracket. -/
theorem ScalarText.opens {v : Json} {t : List Byte} (h : ScalarText v t) :
    ∃ b u, t = b :: u ∧ blank b = false ∧ b ≠ rbracket ∧ b ≠ lbracket ∧ b ≠ lbrace := by
  cases h with
  | null => exact ⟨_, _, rfl, by decide⟩
  | boolTrue => exact ⟨_, _, rfl, by decide⟩
  | boolFalse => exact ⟨_, _, rfl, by decide⟩
  | string => exact ⟨_, _, rfl, by decide⟩
  | number hnum =>
    obtain ⟨hne, hall⟩ := inNumber_of_isNumber hnum
    obtain ⟨b, s, rfl⟩ := List.exists_cons_of_ne_nil hne
    have hb := hall b List.mem_cons_self
    refine ⟨b, s, rfl, ?_, ?_, ?_, ?_⟩
    · by_contra hblank
      rw [Bool.not_eq_false] at hblank
      rw [not_inNumber_of_blank hblank] at hb
      cases hb
    all_goals
      rintro rfl
      exact absurd hb (by decide)

theorem Text.opens {d : ℕ} : Opens (Text d) rbracket := by
  rintro v s hs
  cases d with
  | zero =>
    obtain ⟨w, t, rfl, hw, ht⟩ := hs
    obtain ⟨b, u, rfl, hb, hne, -⟩ := ht.opens
    exact ⟨w, b, u, rfl, hw, hb, hne⟩
  | succ d =>
    obtain ⟨w, t, rfl, hw, ht⟩ := hs
    cases ht with
    | scalar ht =>
      obtain ⟨b, u, rfl, hb, hne, -⟩ := ht.opens
      exact ⟨w, b, u, rfl, hw, hb, hne⟩
    | array => exact ⟨w, _, _, rfl, hw, by decide⟩
    | object => exact ⟨w, _, _, rfl, hw, by decide⟩

theorem MemberText.opens {T : Json → List Byte → Prop} : Opens (Spaced (MemberText T)) rbrace := by
  rintro m s ⟨w, t, rfl, hw, ht⟩
  cases ht with
  | mk => exact ⟨w, _, _, rfl, hw, by decide⟩

section Mono

variable {T T' : α → List Byte → Prop} {close : Byte}

theorem Spaced.imp (hT : ∀ a s, T a s → T' a s) {a : α} {s : List Byte} (h : Spaced T a s) :
    Spaced T' a s := by
  obtain ⟨w, t, rfl, hw, ht⟩ := h
  exact ⟨w, t, rfl, hw, hT _ _ ht⟩

theorem BodyText.imp (hT : ∀ a s, T a s → T' a s) {l : List α} {s : List Byte}
    (h : BodyText T close l s) : BodyText T' close l s := by
  cases h with
  | nil hw => exact .nil hw
  | items h =>
    refine .items ?_
    induction h with
    | last ht hw => exact .last (hT _ _ ht) hw
    | cons ht hw _ ih => exact .cons (hT _ _ ht) hw ih

end Mono

theorem NestedText.imp {T T' : Json → List Byte → Prop} (hT : ∀ v s, T v s → T' v s) {v : Json}
    {s : List Byte} (h : NestedText T v s) : NestedText T' v s := by
  cases h with
  | scalar h => exact .scalar h
  | array h => exact .array (h.imp hT)
  | object h =>
    refine .object (h.imp fun m s hm => hm.imp fun m s hm => ?_)
    cases hm with
    | mk hraw hw ht => exact .mk hraw hw (hT _ _ ht)

theorem Text.succ {d : ℕ} {v : Json} {s : List Byte} (h : Text d v s) : Text (d + 1) v s := by
  induction d generalizing v s with
  | zero => exact Spaced.imp (fun _ _ => .scalar) h
  | succ d ih => exact Spaced.imp (fun _ _ ht => ht.imp fun _ _ => ih) h

/-- A text is one for every depth that allows for it. -/
theorem Text.mono {d d' : ℕ} (hd : d ≤ d') {v : Json} {s : List Byte} (h : Text d v s) :
    Text d' v s := by
  induction d', hd using Nat.le_induction with
  | base => exact h
  | succ d' _ ih => exact ih.succ

/-- **A value is read exactly where there is a text of it.** -/
theorem value_exact (d : ℕ) : Exact (value d) (Text d) Closed := by
  induction d with
  | zero =>
    intro s v r
    constructor
    · intro hs
      obtain ⟨w, hw, hsw⟩ := exists_skip s
      obtain ⟨t, ht, hscalar, hend⟩ := (scalar_exact _ _ _).1 hs
      exact ⟨w ++ t, by rw [hsw, ht, List.append_assoc], ⟨w, t, rfl, hw, hscalar⟩, hend⟩
    · rintro ⟨t, rfl, ⟨w, t, rfl, hw, ht⟩, hend⟩
      obtain ⟨b, u, rfl, hb, -⟩ := id ht.opens
      rw [value, List.append_assoc, List.cons_append, skip_blank hw hb]
      exact (scalar_exact _ _ _).2 ⟨b :: u, rfl, ht, hend⟩
  | succ d ih =>
    have harray : Exact (body (value d) rbracket) (BodyText (Text d) rbracket) fun _ => True :=
      body_exact ih rfl rfl (by decide) Text.opens
    have hobject : Exact (body (member (value d)) rbrace)
        (BodyText (Spaced (MemberText (Text d))) rbrace) fun _ => True :=
      body_exact (member_exact ih) rfl rfl (by decide) MemberText.opens
    intro s v r
    constructor
    · intro hs
      obtain ⟨w, hw, hsw⟩ := exists_skip s
      rw [value] at hs
      cases hskip : skip s with
      | nil =>
        rw [hskip] at hs
        cases hs
      | cons b t =>
        rw [hskip] at hs hsw
        dsimp only at hs
        subst hsw
        split_ifs at hs with hbracket hbrace
        · obtain ⟨⟨l, r'⟩, hbody, hx⟩ := Option.map_eq_some_iff.1 hs
          cases hx
          obtain ⟨t', rfl, ht', -⟩ := (harray _ _ _).1 hbody
          subst hbracket
          exact ⟨w ++ lbracket :: t', by simp, ⟨w, _, rfl, hw, .array ht'⟩, .inl trivial⟩
        · obtain ⟨⟨l, r'⟩, hbody, hx⟩ := Option.map_eq_some_iff.1 hs
          cases hx
          obtain ⟨t', rfl, ht', -⟩ := (hobject _ _ _).1 hbody
          subst hbrace
          exact ⟨w ++ lbrace :: t', by simp, ⟨w, _, rfl, hw, .object ht'⟩, .inl trivial⟩
        · obtain ⟨t', ht', hscalar, hend⟩ := (scalar_exact _ _ _).1 hs
          rw [ht']
          exact ⟨w ++ t', by simp, ⟨w, t', rfl, hw, .scalar hscalar⟩, hend⟩
    · rintro ⟨t, rfl, ⟨w, t, rfl, hw, ht⟩, hend⟩
      cases ht with
      | scalar ht =>
        obtain ⟨b, u, rfl, hb, -, hbracket, hbrace⟩ := id ht.opens
        rw [value, List.append_assoc, List.cons_append, skip_blank hw hb]
        dsimp only
        rw [if_neg hbracket, if_neg hbrace]
        exact (scalar_exact _ _ _).2 ⟨b :: u, rfl, ht, hend⟩
      | @array l t ht =>
        have hbody : body (value d) rbracket (t ++ r) = some (l, r) :=
          (harray _ _ _).2 ⟨t, rfl, ht, .inl trivial⟩
        rw [value, List.append_assoc, List.cons_append, skip_blank hw (b := lbracket) rfl]
        dsimp only
        rw [if_pos rfl, hbody]
        rfl
      | @object l t ht =>
        have hbody : body (member (value d)) rbrace (t ++ r) = some (l, r) :=
          (hobject _ _ _).2 ⟨t, rfl, ht, .inl trivial⟩
        rw [value, List.append_assoc, List.cons_append, skip_blank hw (b := lbrace) rfl]
        dsimp only
        rw [if_neg (by decide), if_pos rfl, hbody]
        rfl

theorem document_eq_some {d : ℕ} {s : List Byte} {v : Json} :
    document d s = some v ↔ ∃ r, value d s = some (v, r) ∧ Blank r := by
  rw [document]
  cases hv : value d s with
  | none => simp
  | some x =>
    obtain ⟨v', r⟩ := x
    simp only [Option.some.injEq, Prod.mk.injEq, Option.ite_none_right_eq_some]
    constructor
    · rintro ⟨hr, rfl⟩
      exact ⟨r, ⟨rfl, rfl⟩, List.all_eq_true.1 hr⟩
    · rintro ⟨r, ⟨rfl, rfl⟩, hr⟩
      exact ⟨List.all_eq_true.2 hr, rfl⟩

/-- Every text of a value is read as that value, with blanks behind it. -/
theorem document_of_text {d : ℕ} {v : Json} {t r : List Byte} (h : Text d v t) (hr : Blank r) :
    document d (t ++ r) = some v := by
  refine document_eq_some.2 ⟨r, (value_exact d _ _ _).2 ⟨t, rfl, h, .inr ?_⟩, hr⟩
  intro b hb
  exact not_inNumber_of_blank (hr b (List.mem_of_head? hb))

/-- **A text that is cut off is not taken for another.** When what is left of a text is a
document, and not a number, the whole text is the same document or none. -/
theorem document_of_append {d : ℕ} {s q : List Byte} {v v' : Json} (h : document d s = some v)
    (hv : Closed v) (h' : document d (s ++ q) = some v') : v' = v := by
  obtain ⟨r, hs, -⟩ := document_eq_some.1 h
  obtain ⟨r', hs', -⟩ := document_eq_some.1 h'
  obtain ⟨t, rfl, ht, -⟩ := (value_exact d _ _ _).1 hs
  have hsame : value d (t ++ r ++ q) = some (v, r ++ q) :=
    (value_exact d _ _ _).2 ⟨t, by rw [List.append_assoc], ht, .inl hv⟩
  rw [hsame] at hs'
  cases hs'
  rfl

end Json

end Lib
