import Neco.Lib.Numeral
import Mathlib.Data.List.Basic

/-!
# Records as JSON

Texts in the grammar of JSON, without blanks. A format writes values and takes them off the front of
a text again. Formats are put together from those of strings, numbers and truth values, and each
carries the proof that it reads what it has written.
-/

namespace Json

/-- The characters that can follow a value in an array or an object. -/
def Closes (c : Char) : Prop := c = ',' ∨ c = ']' ∨ c = '}'

theorem Closes.not_isDigit {c : Char} (closes : Closes c) : c.isDigit = false := by
  rcases closes with rfl | rfl | rfl <;> rfl

/-- A way to write values of a type. No value begins as an array ends. -/
structure Format (α : Type) where
  write : α → List Char
  read : List Char → Option (α × List Char)
  begins : ∀ a rest, write a ++ rest ≠ [] ∧ (write a ++ rest).head? ≠ some ']'
  read_write : ∀ a c rest, Closes c → read (write a ++ c :: rest) = some (a, c :: rest)

def expect (text cs : List Char) : Option (List Char) :=
  if text <+: cs then some (cs.drop text.length) else none

@[simp] theorem expect_append (text rest : List Char) : expect text (text ++ rest) = some rest := by
  simp [expect]

@[simp] theorem expect_cons (c : Char) (rest : List Char) : expect [c] (c :: rest) = some rest :=
  expect_append [c] rest

/-! ### Strings -/

def escape (c : Char) : List Char := if c = '"' ∨ c = '\\' then ['\\', c] else [c]

def quote (text : String) : List Char := '"' :: (text.toList.flatMap escape ++ ['"'])

/-- Reads up to the quotation mark that ends a string. -/
def readChars : List Char → Option (List Char × List Char)
  | [] => none
  | '"' :: rest => some ([], rest)
  | '\\' :: c :: rest => (readChars rest).map fun (cs, rest) => (c :: cs, rest)
  | c :: rest => (readChars rest).map fun (cs, rest) => (c :: cs, rest)

theorem readChars_escape (c : Char) (rest : List Char) :
    readChars (escape c ++ rest) = (readChars rest).map fun (cs, rest) => (c :: cs, rest) := by
  rw [escape]
  split
  next special =>
    rcases special with rfl | rfl <;> rfl
  next plain =>
    rw [List.singleton_append, readChars.eq_def]
    split
    next same => cases same
    next same => exact absurd (.inl (List.cons.inj same).1) plain
    next same => exact absurd (.inr (List.cons.inj same).1) plain
    next same => rw [(List.cons.inj same).1, (List.cons.inj same).2]

theorem readChars_flatMap (cs rest : List Char) :
    readChars (cs.flatMap escape ++ '"' :: rest) = some (cs, rest) := by
  induction cs with
  | nil => rfl
  | cons c cs ih => rw [List.flatMap_cons, List.append_assoc, readChars_escape, ih]; rfl

def Format.string : Format String where
  write := quote
  read cs := do
    let (text, rest) ← readChars (← expect ['"'] cs)
    return (String.ofList text, rest)
  begins a rest := by simp [quote]
  read_write a c rest _ := by
    simp [quote, readChars_flatMap]

/-! ### Numbers and truth values -/

def digits (n : Nat) : List Char := Nat.toDigits 10 n

theorem digits_ne_nil (n : Nat) : digits n ≠ [] := Nat.toDigits_ne_nil

theorem isDigit_of_mem_digits {n : Nat} {c : Char} (member : c ∈ digits n) : c.isDigit = true :=
  Nat.isDigit_of_mem_toDigits (by decide) (by decide) member

def Format.nat : Format Nat where
  write := digits
  read cs :=
    let digits := cs.takeWhile Char.isDigit
    if digits = [] then none
    else some (Nat.ofDigitChars 10 digits 0, cs.dropWhile Char.isDigit)
  begins n rest := by
    obtain ⟨c, cs, same⟩ := List.exists_cons_of_ne_nil (digits_ne_nil n)
    have digit : c.isDigit = true := isDigit_of_mem_digits (n := n) (by simp [same])
    rw [same]
    refine ⟨by simp, ?_⟩
    rintro bracket
    cases bracket
    cases digit
  read_write n c rest closes := by
    have all : ∀ d ∈ digits n, d.isDigit = true := fun d => isDigit_of_mem_digits
    have stop := closes.not_isDigit
    have taken : (digits n ++ c :: rest).takeWhile Char.isDigit = digits n := by
      simp [List.takeWhile_append_of_pos all, stop]
    have dropped : (digits n ++ c :: rest).dropWhile Char.isDigit = c :: rest := by
      simp [List.dropWhile_append_of_pos all, stop]
    rw [taken, dropped, if_neg (digits_ne_nil n), digits, Nat.ofDigitChars_ten_toDigits]

def Format.int : Format Int where
  write
    | .ofNat n => Format.nat.write n
    | .negSucc n => '-' :: Format.nat.write (n + 1)
  read
    | '-' :: cs => (Format.nat.read cs).map fun (n, rest) => (-n, rest)
    | cs => (Format.nat.read cs).map fun (n, rest) => (n, rest)
  begins n rest := by
    cases n with
    | ofNat n => exact Format.nat.begins n rest
    | negSucc n => simp
  read_write n c rest closes := by
    cases n with
    | ofNat n =>
      have unsigned : (Format.nat.write n ++ c :: rest).head? ≠ some '-' := by
        obtain ⟨d, ds, same⟩ := List.exists_cons_of_ne_nil (digits_ne_nil n)
        have digit : d.isDigit = true := isDigit_of_mem_digits (n := n) (by simp [same])
        rw [show Format.nat.write n = d :: ds from same]
        rintro sign
        cases sign
        cases digit
      have read := Format.nat.read_write n c rest closes
      split
      next same => simp [same] at unsigned
      next => simp [read]
    | negSucc n =>
      simp only [List.cons_append, Format.nat.read_write (n + 1) c rest closes, Option.map_some]
      rfl

def Format.bool : Format Bool where
  write
    | true => "true".toList
    | false => "false".toList
  read cs :=
    ((expect "true".toList cs).map fun rest => (true, rest)).or
      ((expect "false".toList cs).map fun rest => (false, rest))
  begins b rest := by cases b <;> simp
  read_write b c rest _ := by
    cases b with
    | true => simp only [expect_append, Option.map_some, Option.some_or]
    | false => simp [expect]

/-! ### Arrays and objects -/

section

variable {α β : Type}

def items (f : Format α) : List α → List Char
  | [] => [']']
  | [a] => f.write a ++ [']']
  | a :: b :: rest => f.write a ++ ',' :: items f (b :: rest)

/-- Reads at most `n` values up to the end of an array. -/
def readItems (f : Format α) : Nat → List Char → Option (List α × List Char)
  | 0, _ => none
  | n + 1, cs =>
    match f.read cs with
    | some (a, ',' :: rest) => (readItems f n rest).map fun (as, rest) => (a :: as, rest)
    | some (a, ']' :: rest) => some ([a], rest)
    | _ => none

theorem readItems_items (f : Format α) (rest : List Char) {n : Nat} {a : α} {as : List α}
    (enough : as.length < n) : readItems f n (items f (a :: as) ++ rest) = some (a :: as, rest) := by
  induction as generalizing a n with
  | nil =>
    obtain ⟨n, rfl⟩ := Nat.exists_eq_add_of_lt enough
    simp [items, readItems, f.read_write a ']' rest (.inr (.inl rfl))]
  | cons b as ih =>
    obtain ⟨n, rfl⟩ : ∃ m, n = m + 1 := Nat.exists_eq_succ_of_ne_zero (by omega)
    have later := ih (a := b) (n := n) (by simpa using enough)
    have first := f.read_write a ',' (items f (b :: as) ++ rest) (.inl rfl)
    simp [items, readItems, first, later]

theorem length_le_items (f : Format α) (as : List α) : as.length ≤ (items f as).length := by
  induction as with
  | nil => simp
  | cons a as ih =>
    cases as with
    | nil => simp [items]
    | cons b as =>
      simp only [items, List.length_append, List.length_cons] at ih ⊢
      omega

def Format.array (f : Format α) : Format (List α) where
  write as := '[' :: items f as
  read
    | '[' :: ']' :: rest => some ([], rest)
    | '[' :: cs => readItems f cs.length cs
    | _ => none
  begins as rest := by simp
  read_write as c rest _ := by
    cases as with
    | nil => rfl
    | cons a as =>
      have inside : (items f (a :: as) ++ c :: rest).head? ≠ some ']' := by
        cases as with
        | nil => simpa [items] using (f.begins a (']' :: c :: rest)).2
        | cons b as => simpa [items] using (f.begins a (',' :: (items f (b :: as) ++ c :: rest))).2
      have enough : as.length < (items f (a :: as) ++ c :: rest).length := by
        have := length_le_items f (a :: as)
        simp only [List.length_cons, List.length_append] at this ⊢
        omega
      have read := readItems_items f (c :: rest) (a := a) enough
      rw [List.cons_append]
      split
      next same => simp [(List.cons.inj same).2] at inside
      next same => rw [← (List.cons.inj same).2]; exact read
      next other => exact absurd rfl (other _)

/-- A field of an object. -/
def Format.field (name : String) (f : Format α) : Format α where
  write a := quote name ++ ':' :: f.write a
  read cs := do f.read (← expect [':'] (← expect (quote name) cs))
  begins a rest := by simp [quote]
  read_write a c rest closes := by
    simp [f.read_write a c rest closes]

/-- One field after another. -/
def Format.fields (f : Format α) (g : Format β) : Format (α × β) where
  write ab := f.write ab.1 ++ ',' :: g.write ab.2
  read cs := do
    let (a, rest) ← f.read cs
    let (b, rest) ← g.read (← expect [','] rest)
    return ((a, b), rest)
  begins ab rest := by simpa using f.begins ab.1 (',' :: (g.write ab.2 ++ rest))
  read_write ab c rest closes := by
    simp [f.read_write ab.1 ',' _ (.inl rfl), g.read_write ab.2 c rest closes]

def Format.object (f : Format α) : Format α where
  write a := '{' :: (f.write a ++ ['}'])
  read cs := do
    let (a, rest) ← f.read (← expect ['{'] cs)
    return (a, ← expect ['}'] rest)
  begins a rest := by simp
  read_write a c rest _ := by
    simp [f.read_write a '}' (c :: rest) (.inr (.inr rfl))]

def Format.marshal (f : Format α) (a : α) : String := String.ofList ((Format.object f).write a)

/-- Reads a text that is one object. -/
def Format.unmarshal (f : Format α) (text : String) : Option α :=
  match (Format.object f).read (text.toList ++ [',']) with
  | some (a, [',']) => some a
  | _ => none

theorem Format.unmarshal_marshal (f : Format α) (a : α) : f.unmarshal (f.marshal a) = some a := by
  rw [Format.unmarshal, Format.marshal, String.toList_ofList,
    (Format.object f).read_write a ',' [] (.inl rfl)]
  rfl

end

end Json
