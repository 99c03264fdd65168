import Mathlib.Data.Rat.Defs
import Mathlib.Data.Rat.Floor
import Mathlib.Data.Int.Log
import Mathlib.Data.String.Basic
import Mathlib.Algebra.Order.BigOperators.Group.List
import Mathlib.Algebra.Order.Ring.Nat
import DevInsiderCoin.Codec.Bytes

/-! The text `encoding/json.Marshal` writes for strings, numbers, arrays and objects.

Strings are escaped as Go 1.22 does with HTML escaping on. A `float64` is written as
`floatEncoder` writes it, in the form of an ES6 number: plain decimals for magnitudes from
1e-6 up to 1e21, exponent form (`1e-7`, `1.5e+21`) outside. An amount here is an exact
rational, and its digits are its own shortest decimal digits, at most 17 significant ones
(cut there when it does not terminate), where Go prints the shortest digits that read back
as the same double.
-/

set_option autoImplicit false

namespace DevInsiderCoin.Json

/-- The escaped form of one character inside a JSON string. -/
def escapeChar (c : Char) : String :=
  if c = '\\' then "\\\\"
  else if c = '"' then "\\\""
  else if c = '\n' then "\\n"
  else if c = '\r' then "\\r"
  else if c = '\t' then "\\t"
  else if c.toNat = 8 then "\\b"
  else if c.toNat = 12 then "\\f"
  else if c.toNat < 0x20 ∨ c = '<' ∨ c = '>' ∨ c = '&' then
    String.mk ['\\', 'u', '0', '0', hexDigit (c.toNat / 16), hexDigit (c.toNat % 16)]
  else if c.toNat = 0x2028 ∨ c.toNat = 0x2029 then
    String.mk ['\\', 'u', '2', '0', '2', hexDigit (c.toNat % 16)]
  else c.toString

def string (s : String) : String := "\"" ++ String.join (s.toList.map escapeChar) ++ "\""

def array (items : List String) : String := "[" ++ ",".intercalate items ++ "]"

def object (members : List (String × String)) : String :=
  "\x7b" ++ ",".intercalate (members.map fun m => string m.1 ++ ":" ++ m.2) ++ "\x7d"

def omitEmpty (key value : String) (empty : Bool) : List (String × String) :=
  if empty then [] else [(key, value)]

def int (n : Int) : String := toString n

/-- The significant digits of a positive amount with decimal exponent `e`, trailing zeros
dropped: the shortest digits that give it, when at most 17 do. -/
def shortestDigits (a : ℚ) (e : Int) : String :=
  (toString ⌊a * 10 ^ (16 - e)⌋₊).dropRightWhile (· = '0')

/-- `strconv`'s `fmtE`: the digits `d.ddd` and an exponent of a sign and at least two digits. -/
def fmtE (ds : String) (e : Int) : String :=
  let frac := ds.drop 1
  ds.take 1 ++ (if frac.isEmpty then "" else "." ++ frac) ++ (if e < 0 then "e-" else "e+") ++
    (if e.natAbs < 10 then "0" else "") ++ toString e.natAbs

/-- `strconv`'s `fmtF`: the digits placed around the decimal point, with the zeros the
exponent asks for. -/
def fmtF (ds : String) (e : Int) : String :=
  if e < 0 then "0." ++ String.mk (List.replicate (e.natAbs - 1) '0') ++ ds
  else if ds.length ≤ e.toNat + 1 then ds ++ String.mk (List.replicate (e.toNat + 1 - ds.length) '0')
  else ds.take (e.toNat + 1) ++ "." ++ ds.drop (e.toNat + 1)

/-- `floatEncoder`'s clean-up of an exponent `e-09` to `e-9`. -/
def trimExponent (b : List Char) : List Char :=
  match b.reverse with
  | d :: '0' :: '-' :: 'e' :: rest => (d :: '-' :: 'e' :: rest).reverse
  | _ => b

/-- `floatEncoder.encode` of a `float64` amount, read as an exact rational. -/
def float (q : ℚ) : String :=
  let a := if q < 0 then -q else q
  let e := Int.log 10 a
  let ds := shortestDigits a e
  let sign := if q < 0 then "-" else ""
  if a = 0 then "0"
  else if a < 1 / 10 ^ 6 ∨ 10 ^ 21 ≤ a then String.mk (trimExponent (sign ++ fmtE ds e).toList)
  else sign ++ fmtF ds e

end Json

/-- `fmt`'s `%.Nf`: the amount rounded half to even at `places` decimals. -/
def formatFixed (places : Nat) (q : ℚ) : String :=
  let a := if q < 0 then -q else q
  let scaled := a * 10 ^ places
  let down := scaled.num.toNat / scaled.den
  let frac := scaled - down
  let n := if frac > 1 / 2 ∨ (frac = 1 / 2 ∧ down % 2 = 1) then down + 1 else down
  let digits := toString n
  let padded := String.mk (List.replicate (places + 1 - digits.length) '0') ++ digits
  (if q < 0 ∧ n ≠ 0 then "-" else "") ++
    (if places = 0 then digits else padded.dropRight places ++ "." ++ padded.takeRight places)

/-! ## Lengths

What the JSON of a value takes on the wire, in bytes. -/

theorem String.utf8ByteSize_append' (s t : String) : (s ++ t).utf8ByteSize = s.utf8ByteSize + t.utf8ByteSize :=
  String.utf8Len_append s.data t.data

theorem String.utf8ByteSize_join (l : List String) : (String.join l).utf8ByteSize = (l.map String.utf8ByteSize).sum := by
  suffices h : ∀ acc : String,
      (l.foldl (· ++ ·) acc).utf8ByteSize = acc.utf8ByteSize + (l.map String.utf8ByteSize).sum from
    (h "").trans (Nat.zero_add _)
  induction l with
  | nil => exact fun acc => (Nat.add_zero _).symm
  | cons s l ih =>
    intro acc
    rw [List.foldl_cons, ih, String.utf8ByteSize_append', List.map_cons, List.sum_cons, Nat.add_assoc]

namespace Json

theorem utf8ByteSize_string (s : String) :
    (string s).utf8ByteSize = (s.toList.map fun c => (escapeChar c).utf8ByteSize).sum + 2 := by
  have hquote : "\"".utf8ByteSize = 1 := by decide
  simp only [string, String.utf8ByteSize_append', String.utf8ByteSize_join, List.map_map, Function.comp_def, hquote]
  omega

theorem utf8ByteSize_escapeChar_le (c : Char) : (escapeChar c).utf8ByteSize ≤ 6 := by
  have hsize : ∀ {p : Prop} [Decidable p] {s t : String}, s.utf8ByteSize ≤ 6 → t.utf8ByteSize ≤ 6 →
      (if p then s else t).utf8ByteSize ≤ 6 := fun hs ht => by split <;> assumption
  have hu00 : ∀ n m : Nat, (String.mk ['\\', 'u', '0', '0', hexDigit n, hexDigit m]).utf8ByteSize ≤ 6 := fun n m => by
    simp only [String.utf8ByteSize_mk, String.utf8Len_cons, String.utf8Len_nil, utf8Size_hexDigit']
    decide
  have hu20 : ∀ m : Nat, (String.mk ['\\', 'u', '2', '0', '2', hexDigit m]).utf8ByteSize ≤ 6 := fun m => by
    simp only [String.utf8ByteSize_mk, String.utf8Len_cons, String.utf8Len_nil, utf8Size_hexDigit']
    decide
  have hchar : c.toString.utf8ByteSize ≤ 6 := by
    have := c.utf8Size_le_four
    show String.utf8Len [c] ≤ 6
    simp only [String.utf8Len_cons, String.utf8Len_nil]
    omega
  unfold escapeChar
  exact hsize (by decide) (hsize (by decide) (hsize (by decide) (hsize (by decide) (hsize (by decide)
    (hsize (by decide) (hsize (by decide) (hsize (hu00 _ _) (hsize (hu20 _) hchar))))))))

theorem utf8ByteSize_string_le (s : String) : (string s).utf8ByteSize ≤ 6 * s.length + 2 := by
  have h := List.sum_le_card_nsmul (s.toList.map fun c => (escapeChar c).utf8ByteSize) 6 fun x hx => by
    obtain ⟨c, -, rfl⟩ := List.mem_map.1 hx
    exact utf8ByteSize_escapeChar_le c
  rw [List.length_map, Nat.nsmul_eq_mul, mul_comm] at h
  rw [utf8ByteSize_string]
  exact Nat.add_le_add_right h 2

end Json

end DevInsiderCoin
