import Neco.Storage.Store
import Neco.Updater.Release
import Neco.Lib.KeyValue
import Neco.Lib.Numeral
import Mathlib.Data.String.Basic

/-!
# Keys in etcd

The keys under which the boot servers are registered and record what they have installed and
which stage of the setup they have finished. A key holds the LRN in decimal, and etcd orders
keys as strings.
-/

namespace Neco

/-- The contents of etcd. -/
abbrev Etcd := KeyValue.KV String String

/-- `strconv.Itoa`. -/
def itoa (n : Int) : String := toString n

/-- `strings.HasPrefix`, and the range of an etcd operation `WithPrefix`. -/
def hasPrefix (s pre : String) : Bool := pre.toList.isPrefixOf s.toList

def keyBootserversPrefix : String := "info/bootservers/"
def keyFinishPrefix : String := "finish/"
def keyInstallPrefix : String := "install/"

def keyInstall (lrn : Int) : String := keyInstallPrefix ++ itoa lrn

def keyFinish (lrn : Int) : String := keyFinishPrefix ++ itoa lrn

def keyContainer (lrn : Int) (name : String) : String :=
  keyInstallPrefix ++ itoa lrn ++ "/containers/" ++ name

def keyDeb (lrn : Int) (name : String) : String :=
  keyInstallPrefix ++ itoa lrn ++ "/debs/" ++ name

/-- The LRN in a key: `strconv.Atoi(string(key[len(prefix):]))`. -/
def lrnOfKey (pre key : String) : Option Int := atoi (key.toList.drop pre.length)

/-! ### Decimal numbers -/

theorem itoa_natCast (n : Nat) : (itoa n).toList = Nat.toDigits 10 n := Nat.toList_repr

theorem itoa_negSucc (n : Nat) : (itoa (Int.negSucc n)).toList = '-' :: Nat.toDigits 10 (n + 1) := by
  have split : itoa (Int.negSucc n) = "-" ++ Nat.repr (n + 1) := rfl
  rw [split, String.toList_append, Nat.toList_repr]
  rfl

theorem digits?_toDigits (n : Nat) : digits? (Nat.toDigits 10 n) = some n := by
  have digits : (Nat.toDigits 10 n).all Char.isDigit = true := by
    rw [List.all_eq_true]
    exact fun c member => Nat.isDigit_of_mem_toDigits (by decide) (by decide) member
  have some : (Nat.toDigits 10 n).isEmpty = false := by simp [Nat.toDigits_ne_nil]
  rw [digits?, digits, some]
  simp only [Bool.not_true, Bool.or_self, Bool.false_eq_true, if_false, Option.some.injEq]
  rw [← Nat.ofDigitChars_eq_foldl]
  exact Nat.ofDigitChars_ten_toDigits

/-- `Atoi` reads what `Itoa` has written. -/
theorem atoi_itoa {n : Int} (int : IsInt n) : atoi (itoa n).toList = some n := by
  cases n with
  | ofNat n =>
    rw [Int.ofNat_eq_natCast, itoa_natCast]
    exact atoi_digits (digits?_toDigits n) int
  | negSucc n =>
    rw [itoa_negSucc]
    exact atoi_minus (digits?_toDigits (n + 1)) int

/-- Decimal numbers have no slash. -/
theorem slash_not_mem_itoa (n : Int) : '/' ∉ (itoa n).toList := by
  have digits (m : Nat) : '/' ∉ Nat.toDigits 10 m := by
    intro member
    cases Nat.isDigit_of_mem_toDigits (by decide) (by decide) member
  cases n with
  | ofNat n =>
    rw [Int.ofNat_eq_natCast, itoa_natCast]
    exact digits n
  | negSucc n =>
    rw [itoa_negSucc, List.mem_cons]
    rintro (sign | member)
    · cases sign
    · exact digits _ member

/-- A number with a sign is not one without. -/
theorem toDigits_ne_sign {m : Nat} {rest : List Char} : Nat.toDigits 10 m ≠ '-' :: rest := by
  intro same
  have digit : '-'.isDigit = true := by
    refine Nat.isDigit_of_mem_toDigits (b := 10) (n := m) (by decide) (by decide) ?_
    rw [same]
    exact List.mem_cons_self ..
  cases digit

theorem itoa_injective : Function.Injective itoa := by
  intro m n same
  have chars : (itoa m).toList = (itoa n).toList := congrArg String.toList same
  cases m with
  | ofNat m =>
    cases n with
    | ofNat n =>
      simp only [Int.ofNat_eq_natCast, itoa_natCast] at chars
      rw [Numeral.toDigits_injective chars]
    | negSucc n =>
      rw [Int.ofNat_eq_natCast, itoa_natCast, itoa_negSucc] at chars
      exact absurd chars toDigits_ne_sign
  | negSucc m =>
    cases n with
    | ofNat n =>
      rw [Int.ofNat_eq_natCast, itoa_natCast, itoa_negSucc] at chars
      exact absurd chars.symm toDigits_ne_sign
    | negSucc n =>
      simp only [itoa_negSucc, List.cons.injEq, true_and] at chars
      have := Numeral.toDigits_injective chars
      rw [show m = n by omega]

/-! ### Prefixes -/

theorem hasPrefix_iff {s pre : String} : hasPrefix s pre = true ↔ pre.toList <+: s.toList :=
  List.isPrefixOf_iff_prefix

theorem hasPrefix_append (pre s : String) : hasPrefix (pre ++ s) pre = true := by
  rw [hasPrefix_iff, String.toList_append]
  exact List.prefix_append ..

theorem append_left_injective (pre : String) : Function.Injective (pre ++ ·) := by
  intro s t same
  have chars := congrArg String.toList same
  simp only [String.toList_append, List.append_cancel_left_eq] at chars
  exact String.toList_inj.mp chars

theorem keyBootServer_eq (lrn : Int) : keyBootServer lrn = keyBootserversPrefix ++ itoa lrn := rfl

theorem keyBootServer_injective : Function.Injective keyBootServer :=
  (append_left_injective keyBootserversPrefix).comp itoa_injective

theorem keyFinish_injective : Function.Injective keyFinish :=
  (append_left_injective keyFinishPrefix).comp itoa_injective

/-- The LRN is read back from a key. -/
theorem lrnOfKey_append {pre : String} {lrn : Int} (int : IsInt lrn) :
    lrnOfKey pre (pre ++ itoa lrn) = some lrn := by
  rw [lrnOfKey, String.toList_append, ← String.length_toList, List.drop_left, atoi_itoa int]

end Neco
