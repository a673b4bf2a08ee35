import ActivemqCpp.Decaf.Lang

/-!
# `StringUtils::compare` and `StringUtils::compareIgnoreCase`

The comparison behind the `compareTo` of every id and of the destinations. It is a
natural order: runs of digits are compared as numbers, whitespace is skipped, and case
is ignored on request. The loop that skips whitespace on the right reads on in the *left* string.

A string is compared up to its terminator; beyond it the model reads the
terminator again. A string is never less than itself (`compareIgnoreCase_self`).
-/

namespace ActivemqCpp.Decaf.StringUtils

/-- `string[index]` of a C string. -/
def charAt (string : Bytes) (index : Nat) : UInt8 := (string.takeWhile (· ≠ 0)).getD index 0

/-- The value of a `char`, which is signed. -/
def charValue (c : UInt8) : Int := if c < 128 then c.toNat else c.toNat - 256

/-- `Character::isWhitespace`. -/
def isWhitespace (c : UInt8) : Bool := c = 10 || c = 9 || c = 13 || c = 12 || c = 32

/-- `Character::isDigit`. -/
def isDigit (c : UInt8) : Bool := 48 ≤ c && c ≤ 57

/-- `Character::toUpperCase`. -/
def toUpperCase (c : UInt8) : UInt8 := if 97 ≤ c ∧ c ≤ 122 then c - 32 else c

/-- `compareRight`: the longer run of digits wins, then the first difference. -/
def compareRight (left right : Bytes) (lIndex rIndex : Nat) : (fuel : Nat) → (bias : Int) → Int
  | 0, bias => bias
  | fuel + 1, bias =>
    let l := charAt left lIndex
    let r := charAt right rIndex
    if !isDigit l && !isDigit r then bias
    else if !isDigit l then -1
    else if !isDigit r then 1
    else
      let bias := if l < r then (if bias = 0 then -1 else bias)
        else if r < l then (if bias = 0 then 1 else bias) else bias
      compareRight left right (lIndex + 1) (rIndex + 1) fuel bias

/-- `compareLeft`: the first difference wins. -/
def compareLeft (left right : Bytes) (lIndex rIndex : Nat) : (fuel : Nat) → Int
  | 0 => 0
  | fuel + 1 =>
    let l := charAt left lIndex
    let r := charAt right rIndex
    if !isDigit l && !isDigit r then 0
    else if !isDigit l then -1
    else if !isDigit r then 1
    else if l < r then -1
    else if r < l then 1
    else compareLeft left right (lIndex + 1) (rIndex + 1) fuel

/-- `while (Character::isWhitespace(cur)) cur = string[++index]`. -/
def skipWhitespace (string : Bytes) : (fuel : Nat) → (index : Nat) → (cur : UInt8) → Nat × UInt8
  | 0, index, cur => (index, cur)
  | fuel + 1, index, cur =>
    if isWhitespace cur then skipWhitespace string fuel (index + 1) (charAt string (index + 1))
    else (index, cur)

/-- The loop of `doCompare`. A round that does not return has read a character of the
left string, so its length bounds the rounds; the lengths bound those of the loops
within. -/
def doCompareFrom (ignoreCase : Bool) (left right : Bytes) :
    (fuel : Nat) → (lIndex rIndex : Nat) → Int
  | 0, _, _ => 0
  | fuel + 1, lIndex, rIndex =>
    let (lIndex, curLeft) :=
      skipWhitespace left (left.length + right.length + 1) lIndex (charAt left lIndex)
    -- reads on in the left string
    let (rIndex, curRight) :=
      skipWhitespace left (left.length + right.length + 1) rIndex (charAt right rIndex)
    let digits :=
      if isDigit curLeft && isDigit curRight then
        if curLeft = 48 ∨ curRight = 48 then
          compareLeft left right lIndex rIndex (left.length + 1)
        else compareRight left right lIndex rIndex (left.length + 1) 0
      else 0
    if digits ≠ 0 then digits
    else if curLeft = 0 ∧ curRight = 0 then 0
    else
      let l := charValue (if ignoreCase then toUpperCase curLeft else curLeft)
      let r := charValue (if ignoreCase then toUpperCase curRight else curRight)
      if l < r then -1
      else if l > r then 1
      else doCompareFrom ignoreCase left right fuel (lIndex + 1) (rIndex + 1)

/-- `compareIgnoreCase`. -/
def compareIgnoreCase (left right : Bytes) : Int :=
  doCompareFrom true left right (left.length + 1) 0 0

/-- `compare`. -/
def compare (left right : Bytes) : Int :=
  doCompareFrom false left right (left.length + 1) 0 0

/-! ## A string against itself -/

variable (string : Bytes)

theorem compareRight_self (fuel index : Nat) :
    compareRight string string index index fuel 0 = 0 := by
  induction fuel generalizing index with
  | zero => rfl
  | succ fuel ih =>
    rw [compareRight]
    by_cases hdigit : isDigit (charAt string index) = true
    · simp [hdigit, ih]
    · simp [hdigit]

theorem compareLeft_self (fuel index : Nat) : compareLeft string string index index fuel = 0 := by
  induction fuel generalizing index with
  | zero => rfl
  | succ fuel ih =>
    rw [compareLeft]
    by_cases hdigit : isDigit (charAt string index) = true
    · simp [hdigit, ih]
    · simp [hdigit]

/-- Both indices move in step, so every round finds the same character twice. -/
theorem doCompareFrom_self (ignoreCase : Bool) (string : Bytes) (fuel index : Nat) :
    doCompareFrom ignoreCase string string fuel index index = 0 := by
  induction fuel generalizing index with
  | zero => rfl
  | succ fuel ih =>
    rw [doCompareFrom]
    generalize skipWhitespace string (string.length + string.length + 1) index
      (charAt string index) = skipped
    simp [compareLeft_self, compareRight_self, ih]

theorem compareIgnoreCase_self : compareIgnoreCase string string = 0 :=
  doCompareFrom_self true string _ 0

theorem compare_self : compare string string = 0 :=
  doCompareFrom_self false string _ 0

end ActivemqCpp.Decaf.StringUtils
