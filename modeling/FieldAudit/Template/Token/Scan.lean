import FieldAudit.Literal.Number
import FieldAudit.Template.Error
import FieldAudit.Text.Alphanumeric

/-! # Reading one token inside an action

`scan` reads the token at the start of a text.  Its lexeme is the piece of the text that it takes
off, and never empty: lexeme and rest together are the text (`scan_append`). -/

namespace FieldAudit.Template

open Text

/-- Whether a character separates tokens and is trimmed beside trim markers. -/
def isSpace (c : Char) : Bool :=
  c = ' ' || c = '\t' || c = '\r' || c = '\n'

/-- Whether a character can stand in a word. -/
def isWordChar (c : Char) : Bool :=
  c = '_' || isAlphanumeric c

/-- What follows a right delimiter with a trim marker: a space, a minus and the delimiter. -/
def afterTrimmedRight? (right : List Char) : List Char → Option (List Char)
  | c :: '-' :: rest => if isSpace c then afterPrefix? right rest else none
  | _ => none

/-- A token read from a text, with what is left of the text. -/
structure Scan where
  kind : Token.Kind
  lexeme : List Char
  rest : List Char
  deriving DecidableEq, Repr

/-! ## Pieces -/

/-- The longest beginning of a text in a class of characters, and the rest. -/
def spanWhile (p : Char → Bool) (text : List Char) : List Char × List Char :=
  (text.takeWhile p, text.dropWhile p)

/-- The first character of a text if it is in a class, and the rest. -/
def spanOne (p : Char → Bool) : List Char → List Char × List Char
  | [] => ([], [])
  | c :: rest => if p c then ([c], rest) else ([], c :: rest)

/-- A span and what follows it are the text. -/
@[simp] theorem spanWhile_append (p : Char → Bool) (text : List Char) :
    (spanWhile p text).1 ++ (spanWhile p text).2 = text :=
  List.takeWhile_append_dropWhile

/-- A span of at most one character and what follows it are the text. -/
@[simp] theorem spanOne_append (p : Char → Bool) (text : List Char) :
    (spanOne p text).1 ++ (spanOne p text).2 = text := by
  cases text with
  | nil => rfl
  | cons c rest => by_cases h : p c <;> simp [spanOne, h]

/-- A run of spaces.  It ends before a right delimiter with a trim marker. -/
def spanSpace (right : List Char) : List Char → List Char × List Char
  | [] => ([], [])
  | c :: rest =>
    if isSpace c && (afterTrimmedRight? right (c :: rest)).isNone then
      (c :: (spanSpace right rest).1, (spanSpace right rest).2)
    else ([], c :: rest)

/-- The spaces in front of a delimiter and what follows them are the text. -/
@[simp] theorem spanSpace_append (right text : List Char) :
    (spanSpace right text).1 ++ (spanSpace right text).2 = text := by
  induction text with
  | nil => rfl
  | cons c rest ih =>
    simp only [spanSpace]
    split <;> simp [ih]

/-- The text up to and with a closing quote.  A backslash takes the next character with it, and no
newline may stand inside. -/
def spanQuoted (quote : Char) : List Char → Option (List Char × List Char)
  | [] => none
  | '\\' :: [] => none
  | '\\' :: c :: rest =>
    if c = '\n' then none
    else (spanQuoted quote rest).map fun parts => ('\\' :: c :: parts.1, parts.2)
  | c :: rest =>
    if c = quote then some ([c], rest)
    else if c = '\n' then none
    else (spanQuoted quote rest).map fun parts => (c :: parts.1, parts.2)

/-- A quoted span and what follows its closing quote are the text. -/
theorem spanQuoted_append {quote : Char} {text : List Char} {parts : List Char × List Char}
    (h : spanQuoted quote text = some parts) : parts.1 ++ parts.2 = text := by
  fun_induction spanQuoted quote text generalizing parts with
  | case1 => cases h
  | case2 => cases h
  | case3 => cases h
  | case4 c rest _ ih =>
    obtain ⟨inner, hi, rfl⟩ := Option.map_eq_some_iff.1 h
    simp [ih hi]
  | case5 => cases h; rfl
  | case6 => cases h
  | case7 c rest _ _ _ _ ih =>
    obtain ⟨inner, hi, rfl⟩ := Option.map_eq_some_iff.1 h
    simp [ih hi]

/-- The text up to and with the next back quote. -/
def spanRaw (text : List Char) : Option (List Char × List Char) :=
  (splitFirst? [backquote] text).map fun parts => (parts.1 ++ [backquote], parts.2)

/-- A raw span and what follows its closing quote are the text. -/
theorem spanRaw_append {text : List Char} {parts : List Char × List Char}
    (h : spanRaw text = some parts) : parts.1 ++ parts.2 = text := by
  obtain ⟨inner, hi, rfl⟩ := Option.map_eq_some_iff.1 h
  rw [splitFirst?_eq_some hi]
  simp

/-! ## Numbers -/

/-- The digits and the exponent marks of a base. -/
structure Base where
  isDigit : Char → Bool
  isExponentMark : Char → Bool

/-- Whether a character is a mark of a decimal exponent. -/
def isDecimalMark (c : Char) : Bool :=
  c = 'e' || c = 'E'

/-- Base ten. -/
def Base.decimal : Base :=
  ⟨fun c => c.isDigit || c = '_', isDecimalMark⟩

/-- The base that a letter after a leading zero announces. -/
def Base.ofLetter? (letter : Char) : Option Base :=
  if letter = 'x' || letter = 'X' then
    some ⟨fun c => (Literal.digit? 16 c).isSome || c = '_', fun c => c = 'p' || c = 'P'⟩
  else if letter = 'o' || letter = 'O' then
    some ⟨fun c => (Literal.digit? 8 c).isSome || c = '_', isDecimalMark⟩
  else if letter = 'b' || letter = 'B' then
    some ⟨fun c => (Literal.digit? 2 c).isSome || c = '_', isDecimalMark⟩
  else none

/-- The leading zero and letter of a number that is not decimal, the base and the rest. -/
def spanBase : List Char → List Char × Base × List Char
  | '0' :: letter :: rest =>
    match Base.ofLetter? letter with
    | some base => (['0', letter], base, rest)
    | none => ([], .decimal, '0' :: letter :: rest)
  | text => ([], .decimal, text)

/-- An optional point with the digits after it. -/
def spanFraction (base : Base) : List Char → List Char × List Char
  | '.' :: rest => ('.' :: (spanWhile base.isDigit rest).1, (spanWhile base.isDigit rest).2)
  | text => ([], text)

/-- An optional exponent: a mark, an optional sign and decimal digits. -/
def spanExponent (base : Base) : List Char → List Char × List Char
  | [] => ([], [])
  | c :: rest =>
    if base.isExponentMark c then
      let sign := spanOne Literal.isSign rest
      let digits := spanWhile Base.decimal.isDigit sign.2
      (c :: (sign.1 ++ digits.1), digits.2)
    else ([], c :: rest)

/-- The base of a number and what follows it are the text. -/
theorem spanBase_append (text : List Char) : (spanBase text).1 ++ (spanBase text).2.2 = text := by
  unfold spanBase
  split
  · split <;> rfl
  · rfl

/-- The fraction of a number and what follows it are the text. -/
@[simp] theorem spanFraction_append (base : Base) (text : List Char) :
    (spanFraction base text).1 ++ (spanFraction base text).2 = text := by
  unfold spanFraction
  split <;> simp

/-- The exponent of a number and what follows it are the text. -/
@[simp] theorem spanExponent_append (base : Base) (text : List Char) :
    (spanExponent base text).1 ++ (spanExponent base text).2 = text := by
  cases text with
  | nil => rfl
  | cons c rest =>
    simp only [spanExponent]
    split <;> simp [List.append_assoc]

/-- The longest beginning of a text with the shape of a number, and the rest. -/
def spanNumber (text : List Char) : List Char × List Char :=
  let sign := spanOne Literal.isSign text
  let base := spanBase sign.2
  let whole := spanWhile base.2.1.isDigit base.2.2
  let fraction := spanFraction base.2.1 whole.2
  let exponent := spanExponent base.2.1 fraction.2
  let imaginary := spanOne (· = 'i') exponent.2
  (sign.1 ++ (base.1 ++ (whole.1 ++ (fraction.1 ++ (exponent.1 ++ imaginary.1)))), imaginary.2)

/-- A number and what follows it are the text. -/
@[simp] theorem spanNumber_append (text : List Char) :
    (spanNumber text).1 ++ (spanNumber text).2 = text := by
  simp only [spanNumber, List.append_assoc, spanOne_append, spanExponent_append,
    spanFraction_append, spanWhile_append, spanBase_append]

/-! ## Tokens -/

/-- The character that may not follow a word, if one does. -/
def badFollower? (right : List Char) : List Char → Option Char
  | [] => none
  | c :: rest =>
    if isSpace c || ['.', ',', '|', ':', ')', '('].contains c || right.isPrefixOf (c :: rest) then
      none
    else some c

/-- The kind of a word that starts with a letter, a digit or an underscore. -/
def wordKind (word : List Char) : Token.Kind :=
  let name := String.ofList word
  match Keyword.ofName? name with
  | some k => .keyword k
  | none => if name = "true" || name = "false" then .bool else .identifier

/-- A word token, unless a character follows that may not. -/
def scanWord (right : List Char) (kind : Token.Kind) (parts : List Char × List Char) :
    Except Cause Scan :=
  match badFollower? right parts.2 with
  | some c => .error (.badCharacter c)
  | none => .ok ⟨kind, parts.1, parts.2⟩

/-- A number token.  It has a digit, and no word may follow it. -/
def scanNumber (text : List Char) : Except Cause Scan :=
  let number := spanNumber text
  let following := number.2.takeWhile isWordChar
  if number.1.any Char.isDigit && following.isEmpty then .ok ⟨.number, number.1, number.2⟩
  else .error (.badNumber (number.1 ++ following))

/-- A token that starts with a point: a number, a field or the point alone. -/
def scanDot (right rest : List Char) : Except Cause Scan :=
  match rest with
  | [] => .ok ⟨.dot, ['.'], []⟩
  | c :: _ =>
    if c.isDigit then scanNumber ('.' :: rest)
    else if isWordChar c then
      scanWord right .field ('.' :: (spanWhile isWordChar rest).1, (spanWhile isWordChar rest).2)
    else .ok ⟨.dot, ['.'], rest⟩

/-- A token with an opening quote that has been read. -/
def scanQuoted (kind : Token.Kind) (quote : Char) (cause : Cause)
    (parts : Option (List Char × List Char)) : Except Cause Scan :=
  match parts with
  | some parts => .ok ⟨kind, quote :: parts.1, parts.2⟩
  | none => .error cause

/-- The kind of a token that is always a single character. -/
def punctuation? : Char → Option Token.Kind
  | '=' => some .assign
  | '|' => some .pipe
  | ',' => some .comma
  | '(' => some .leftParen
  | ')' => some .rightParen
  | _ => none

/-- The token at the start of a text inside an action. -/
def scan (right : List Char) : List Char → Except Cause Scan
  | [] => .error .unclosedAction
  | c :: rest =>
    if isSpace c then
      .ok ⟨.space, c :: (spanSpace right rest).1, (spanSpace right rest).2⟩
    else
      match punctuation? c with
      | some kind => .ok ⟨kind, [c], rest⟩
      | none =>
        if c = ':' then
          match rest with
          | '=' :: tail => .ok ⟨.declare, [':', '='], tail⟩
          | _ => .error .expectedDeclare
        else if c = doubleQuote then
          scanQuoted .string doubleQuote .unterminatedString (spanQuoted doubleQuote rest)
        else if c = backquote then
          scanQuoted .rawString backquote .unterminatedRawString (spanRaw rest)
        else if c = singleQuote then
          scanQuoted .charConstant singleQuote .unterminatedCharConstant
            (spanQuoted singleQuote rest)
        else if c = '$' then
          scanWord right .variable
            ('$' :: (spanWhile isWordChar rest).1, (spanWhile isWordChar rest).2)
        else if c = '.' then scanDot right rest
        else if Literal.isSign c || c.isDigit then scanNumber (c :: rest)
        else if isWordChar c then
          let word := spanWhile isWordChar (c :: rest)
          scanWord right (wordKind word.1) word
        else .error (.unrecognizedCharacter c)

/-- A word that is scanned is scanned whole. -/
theorem scanWord_eq_ok {right : List Char} {kind : Token.Kind} {parts : List Char × List Char}
    {s : Scan} (h : scanWord right kind parts = .ok s) : s = ⟨kind, parts.1, parts.2⟩ := by
  unfold scanWord at h
  split at h
  · cases h
  · exact (Except.ok.inj h).symm

/-- A scanned number is not empty and, with the rest, makes up the text. -/
theorem scanNumber_eq_ok {text : List Char} {s : Scan} (h : scanNumber text = .ok s) :
    s.lexeme ++ s.rest = text ∧ s.lexeme ≠ [] := by
  unfold scanNumber at h
  simp only at h
  split at h
  next hd =>
    cases h
    refine ⟨spanNumber_append text, ?_⟩
    intro hn
    simp only at hn
    simp [hn] at hd
  next => cases h

/-- A quoted token begins with its quote and goes on as its parts say. -/
theorem scanQuoted_eq_ok {kind : Token.Kind} {quote : Char} {cause : Cause}
    {parts : Option (List Char × List Char)} {s : Scan}
    (h : scanQuoted kind quote cause parts = .ok s) :
    ∃ p, parts = some p ∧ s = ⟨kind, quote :: p.1, p.2⟩ := by
  unfold scanQuoted at h
  split at h
  next p => exact ⟨p, rfl, (Except.ok.inj h).symm⟩
  next => cases h

/-- The rules by which a token is read at the start of a text inside an action. -/
inductive Scanned (right : List Char) : List Char → Scan → Prop
  | space {c : Char} {rest : List Char} (hc : isSpace c = true) :
      Scanned right (c :: rest) ⟨.space, c :: (spanSpace right rest).1, (spanSpace right rest).2⟩
  | punctuation {c : Char} {rest : List Char} {kind : Token.Kind}
      (hk : punctuation? c = some kind) :
      Scanned right (c :: rest) ⟨kind, [c], rest⟩
  | declare {rest : List Char} : Scanned right (':' :: '=' :: rest) ⟨.declare, [':', '='], rest⟩
  | string {rest : List Char} {parts : List Char × List Char}
      (hp : spanQuoted doubleQuote rest = some parts) :
      Scanned right (doubleQuote :: rest) ⟨.string, doubleQuote :: parts.1, parts.2⟩
  | rawString {rest : List Char} {parts : List Char × List Char} (hp : spanRaw rest = some parts) :
      Scanned right (backquote :: rest) ⟨.rawString, backquote :: parts.1, parts.2⟩
  | charConstant {rest : List Char} {parts : List Char × List Char}
      (hp : spanQuoted singleQuote rest = some parts) :
      Scanned right (singleQuote :: rest) ⟨.charConstant, singleQuote :: parts.1, parts.2⟩
  /-- A variable, whose name may be empty. -/
  | dollar {rest : List Char} (hb : badFollower? right (rest.dropWhile isWordChar) = none) :
      Scanned right ('$' :: rest)
        ⟨.variable, '$' :: rest.takeWhile isWordChar, rest.dropWhile isWordChar⟩
  | field {c : Char} {rest : List Char} (hc : isWordChar c = true)
      (hb : badFollower? right (rest.dropWhile isWordChar) = none) :
      Scanned right ('.' :: c :: rest)
        ⟨.field, '.' :: c :: rest.takeWhile isWordChar, rest.dropWhile isWordChar⟩
  | dot {rest : List Char} : Scanned right ('.' :: rest) ⟨.dot, ['.'], rest⟩
  | number {text : List Char} {s : Scan} (hn : scanNumber text = .ok s) : Scanned right text s
  | word {c : Char} {rest : List Char} (hc : isWordChar c = true)
      (hb : badFollower? right (rest.dropWhile isWordChar) = none) :
      Scanned right (c :: rest)
        ⟨wordKind (c :: rest.takeWhile isWordChar), c :: rest.takeWhile isWordChar,
          rest.dropWhile isWordChar⟩

/-- A word is scanned exactly as it stands, and only in front of an admissible character. -/
theorem badFollower?_of_scanWord {right : List Char} {kind : Token.Kind}
    {parts : List Char × List Char} {s : Scan} (h : scanWord right kind parts = .ok s) :
    badFollower? right parts.2 = none ∧ s = ⟨kind, parts.1, parts.2⟩ := by
  unfold scanWord at h
  split at h
  next => cases h
  next hb => cases h; exact ⟨hb, rfl⟩

/-- What is scanned at a dot begins with the dot. -/
theorem scanDot_scanned {right rest : List Char} {s : Scan} (h : scanDot right rest = .ok s) :
    Scanned right ('.' :: rest) s := by
  unfold scanDot at h
  split at h
  next => cases h; exact .dot
  next c tail =>
    split at h
    next => exact .number h
    next =>
      split at h
      next hc =>
        obtain ⟨hb, rfl⟩ := badFollower?_of_scanWord h
        simp only [spanWhile, List.takeWhile_cons_of_pos hc, List.dropWhile_cons_of_pos hc] at hb ⊢
        exact .field hc hb
      next => cases h; exact .dot

/-- A token is read by one of the rules. -/
theorem scan_scanned {right text : List Char} {s : Scan} (h : scan right text = .ok s) :
    Scanned right text s := by
  cases text with
  | nil => cases h
  | cons c rest =>
    unfold scan at h
    dsimp only at h
    -- The rules are tried in the order of the scanner, each where those before it do not apply.
    by_cases hspace : isSpace c = true
    · rw [if_pos hspace] at h
      cases h
      exact .space hspace
    rw [if_neg hspace] at h
    cases hp : punctuation? c with
    | some kind =>
      rw [hp] at h
      cases h
      exact .punctuation hp
    | none =>
      rw [hp] at h
      dsimp only at h
      by_cases hcolon : c = ':'
      · rw [if_pos hcolon] at h
        split at h
        next => cases h; rw [hcolon]; exact .declare
        next => cases h
      rw [if_neg hcolon] at h
      by_cases hdouble : c = doubleQuote
      · rw [if_pos hdouble] at h
        obtain ⟨parts, hparts, rfl⟩ := scanQuoted_eq_ok h
        rw [hdouble]
        exact .string hparts
      rw [if_neg hdouble] at h
      by_cases hback : c = backquote
      · rw [if_pos hback] at h
        obtain ⟨parts, hparts, rfl⟩ := scanQuoted_eq_ok h
        rw [hback]
        exact .rawString hparts
      rw [if_neg hback] at h
      by_cases hsingle : c = singleQuote
      · rw [if_pos hsingle] at h
        obtain ⟨parts, hparts, rfl⟩ := scanQuoted_eq_ok h
        rw [hsingle]
        exact .charConstant hparts
      rw [if_neg hsingle] at h
      by_cases hdollar : c = '$'
      · rw [if_pos hdollar] at h
        obtain ⟨hb, rfl⟩ := badFollower?_of_scanWord h
        rw [hdollar]
        exact .dollar hb
      rw [if_neg hdollar] at h
      by_cases hdot : c = '.'
      · rw [if_pos hdot] at h
        rw [hdot]
        exact scanDot_scanned h
      rw [if_neg hdot] at h
      by_cases hnumber : (Literal.isSign c || c.isDigit) = true
      · rw [if_pos hnumber] at h
        exact .number h
      rw [if_neg hnumber] at h
      by_cases hword : isWordChar c = true
      · rw [if_pos hword] at h
        obtain ⟨hb, rfl⟩ := badFollower?_of_scanWord h
        simp only [spanWhile, List.takeWhile_cons_of_pos hword,
          List.dropWhile_cons_of_pos hword] at hb ⊢
        exact .word hword hb
      · rw [if_neg hword] at h
        cases h

/-- A token takes a piece off the text that is not empty. -/
theorem scan_eq_ok {right text : List Char} {s : Scan} (h : scan right text = .ok s) :
    s.lexeme ++ s.rest = text ∧ s.lexeme ≠ [] := by
  cases scan_scanned h with
  | string hp => simp [spanQuoted_append hp]
  | rawString hp => simp [spanRaw_append hp]
  | charConstant hp => simp [spanQuoted_append hp]
  | number hn => exact scanNumber_eq_ok hn
  | _ => simp

/-- What a token takes off and what it leaves are the text. -/
theorem scan_append {right text : List Char} {s : Scan} (h : scan right text = .ok s) :
    s.lexeme ++ s.rest = text :=
  (scan_eq_ok h).1

/-- A token leaves less than the text. -/
theorem scan_length {right text : List Char} {s : Scan} (h : scan right text = .ok s) :
    s.rest.length < text.length := by
  obtain ⟨happ, hne⟩ := scan_eq_ok h
  have := List.length_pos_iff.2 hne
  rw [← happ, List.length_append]
  omega

end FieldAudit.Template
