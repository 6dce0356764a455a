import FieldAudit.Literal

/-! # Number literals

A number literal may carry signs in front, underscores anywhere and imaginary marks at its end;
none of them matters to whether it is a number.  What is left is read in lower case: base sixteen
after `0x`, base eight after `0o`, base two after `0b`, and as a decimal otherwise. -/

namespace FieldAudit.Literal

/-- Whether a character is a sign. -/
def isSign (c : Char) : Bool :=
  c = '+' || c = '-'

/-- A number literal without signs in front, imaginary marks and underscores, in lower case. -/
def bareNumber (text : List Char) : List Char :=
  ((((text.dropWhile isSign).reverse.dropWhile (· = 'i')).reverse).filter (· ≠ '_')).map
    Char.toLower

/-- Whether digits in base sixteen, with point and exponent marks among them, follow `0x`. -/
def isHexNumber (digits : List Char) : Bool :=
  !digits.isEmpty &&
    digits.all fun c => (digit? 16 c).isSome || c = '.' || c = 'p' || isSign c

/-- The value of a text made of digits in the given base alone. -/
def digitsValue? (base : Nat) (digits : List Char) : Option Nat :=
  digits.foldl (fun value c => do return (← value) * base + (← digit? base c)) (some 0)

/-- Whether a text is a number in the given base that fits into 64 bits.  A plus sign may stand in
front. -/
def isWord (base : Nat) (text : List Char) : Bool :=
  let digits :=
    match text with
    | '+' :: rest => rest
    | _ => text
  !digits.isEmpty &&
    match digitsValue? base digits with
    | some value => value < 0x10000000000000000
    | none => false

/-- Whether a text is empty or an exponent: a mark, an optional sign and digits. -/
def isExponent (text : List Char) : Bool :=
  match text with
  | [] => true
  | 'e' :: rest =>
    let digits :=
      match rest with
      | c :: tail => if isSign c then tail else rest
      | [] => []
    !digits.isEmpty && digits.all Char.isDigit
  | _ => false

/-- Whether a text without a sign is a decimal: digits with at most one point among or around
them, and an optional exponent. -/
def isUnsignedDecimal (text : List Char) : Bool :=
  let whole := text.takeWhile Char.isDigit
  match text.dropWhile Char.isDigit with
  | '.' :: rest =>
    let fraction := rest.takeWhile Char.isDigit
    !(whole.isEmpty && fraction.isEmpty) && isExponent (rest.dropWhile Char.isDigit)
  | rest => !whole.isEmpty && isExponent rest

/-- Whether a text in lower case is a decimal number or a name of a number that is not finite. -/
def isDecimal (text : List Char) : Bool :=
  let bare :=
    match text with
    | c :: rest => if isSign c then rest else text
    | [] => []
  bare = "inf".toList || bare = "infinity".toList || bare = "nan".toList ||
    isUnsignedDecimal bare

/-- Whether a text is a number literal. -/
def isNumber (text : List Char) : Bool :=
  match bareNumber text with
  | '0' :: 'x' :: digits => isHexNumber digits
  | '0' :: 'o' :: digits => isWord 8 digits
  | '0' :: 'b' :: digits => isWord 2 digits
  | bare => isDecimal bare

end FieldAudit.Literal
