import Neco.Lib.Numeral
import Mathlib.Data.List.Basic
import Mathlib.Algebra.Group.Nat.Defs

/-!
# IPv4 addresses and their text

An address is a number of 32 bits. Its text is the four octets in decimal without leading zeros,
separated by dots, and reading accepts these texts only.
-/

namespace IPv4

abbrev Addr := BitVec 32

def octet (a : Addr) (k : Nat) : Nat := a.toNat / 256 ^ k % 256

/-- The characters of an address. -/
def chars (a : Addr) : List Char :=
  Nat.toDigits 10 (octet a 3) ++ '.' :: (Nat.toDigits 10 (octet a 2) ++ '.' ::
    (Nat.toDigits 10 (octet a 1) ++ '.' :: Nat.toDigits 10 (octet a 0)))

def text (a : Addr) : String := String.ofList (chars a)

/-- Reads a number below 256 without leading zeros. -/
def readOctet (cs : List Char) : Option Nat :=
  (List.range 256).find? fun n => Nat.toDigits 10 n = cs

def parse (cs : List Char) : Option Addr :=
  match (cs.splitOn '.').mapM readOctet with
  | some [a, b, c, d] => some (BitVec.ofNat 32 (((a * 256 + b) * 256 + c) * 256 + d))
  | _ => none

theorem octet_lt (a : Addr) (k : Nat) : octet a k < 256 := Nat.mod_lt _ (by decide)

theorem readOctet_toDigits {n : Nat} (small : n < 256) : readOctet (Nat.toDigits 10 n) = some n := by
  have found : (readOctet (Nat.toDigits 10 n)).isSome :=
    List.find?_isSome.mpr ⟨n, List.mem_range.mpr small, decide_eq_true rfl⟩
  obtain ⟨m, read⟩ := Option.isSome_iff_exists.mp found
  have same : Nat.toDigits 10 m = Nat.toDigits 10 n := by
    simpa using List.find?_some read
  rw [read, Numeral.toDigits_injective same]

/-- Decimal numbers have digits only. -/
theorem not_mem_toDigits {c : Char} (other : c.isDigit = false) (n : Nat) :
    c ∉ Nat.toDigits 10 n := by
  intro member
  rw [Nat.isDigit_of_mem_toDigits (by decide) (by decide) member] at other
  cases other

theorem toNat_eq_octets (a : Addr) :
    ((octet a 3 * 256 + octet a 2) * 256 + octet a 1) * 256 + octet a 0 = a.toNat := by
  have bound := a.isLt
  simp only [octet]
  omega

theorem splitOn_chars (a : Addr) : (chars a).splitOn '.' =
    [Nat.toDigits 10 (octet a 3), Nat.toDigits 10 (octet a 2), Nat.toDigits 10 (octet a 1),
      Nat.toDigits 10 (octet a 0)] := by
  have field (n : Nat) : (Nat.toDigits 10 n).splitOn '.' = [Nat.toDigits 10 n] :=
    List.splitOn_eq_singleton (not_mem_toDigits rfl n)
  simp only [chars, List.splitOn_append_cons_self, field, List.singleton_append]

/-- An address is read from its text. -/
theorem parse_chars (a : Addr) : parse (chars a) = some a := by
  have read (k : Nat) : readOctet (Nat.toDigits 10 (octet a k)) = some (octet a k) :=
    readOctet_toDigits (octet_lt a k)
  have octets : ((chars a).splitOn '.').mapM readOctet =
      some [octet a 3, octet a 2, octet a 1, octet a 0] := by
    rw [splitOn_chars]
    simp [read]
  rw [parse, octets]
  simp only [toNat_eq_octets, BitVec.ofNat_toNat, BitVec.setWidth_eq]

@[simp] theorem toList_text (a : Addr) : (text a).toList = chars a := String.toList_ofList

theorem text_injective : Function.Injective text := by
  intro a b same
  have chars : chars a = chars b := by rw [← toList_text, same, toList_text]
  exact Option.some.inj (by rw [← parse_chars a, chars, parse_chars])

/-- An address is written with digits and dots. -/
theorem not_mem_chars {c : Char} (other : c.isDigit = false) (dot : c ≠ '.') (a : Addr) :
    c ∉ chars a := by
  simp only [chars, List.mem_append, List.mem_cons, not_or]
  exact ⟨not_mem_toDigits other _, dot, not_mem_toDigits other _, dot, not_mem_toDigits other _,
    dot, not_mem_toDigits other _⟩

end IPv4
