import FieldAudit.Text.Basic

/-! # Bytes as text

Text files are read as UTF-8.  `validate` reads encoded characters and says where they stop.
`decode?` accepts encoded characters only; `decode` accepts any bytes: it goes on behind each place
where a character breaks off, and a byte that belongs to no character is read as a substitute of one
byte, so offsets in the text are offsets in the file. -/

namespace FieldAudit.Text

/-- The bytes of a text. -/
def encode (text : List Char) : List UInt8 :=
  text.flatMap String.utf8EncodeChar

/-- The six low bits of a byte that continues a character. -/
def continuation? (b : UInt8) : Option Nat :=
  if 0x80 ≤ b.toNat ∧ b.toNat < 0xc0 then some (b.toNat - 0x80) else none

/-- The character with a value of at least the given bound. -/
def charFrom? (least value : Nat) : Option Char :=
  if least ≤ value ∧ value.isValidChar then some (Char.ofNat value) else none

/-- The character that starts with a byte, and the number of bytes it takes after that one.  Only
the shortest form of a character counts. -/
def encodedChar? (b : UInt8) (rest : List UInt8) : Option (Char × Nat) :=
  let lead := b.toNat
  if lead < 0x80 then some (Char.ofNat lead, 0)
  else if 0xc0 ≤ lead ∧ lead < 0xe0 then do
    let x ← continuation? (← rest[0]?)
    return (← charFrom? 0x80 ((lead - 0xc0) * 64 + x), 1)
  else if 0xe0 ≤ lead ∧ lead < 0xf0 then do
    let x ← continuation? (← rest[0]?)
    let y ← continuation? (← rest[1]?)
    return (← charFrom? 0x800 (((lead - 0xe0) * 64 + x) * 64 + y), 2)
  else if 0xf0 ≤ lead ∧ lead < 0xf8 then do
    let x ← continuation? (← rest[0]?)
    let y ← continuation? (← rest[1]?)
    let z ← continuation? (← rest[2]?)
    return (← charFrom? 0x10000 ((((lead - 0xf0) * 64 + x) * 64 + y) * 64 + z), 3)
  else none

/-- The character that stands for a byte outside any encoded character. -/
def substitute : Char := '\x1a'

/-- The number of bytes that follow the first byte of a character.  No other byte starts one. -/
def followers (b : UInt8) : Nat :=
  if 0xc2 ≤ b.toNat ∧ b.toNat < 0xe0 then 1
  else if 0xe0 ≤ b.toNat ∧ b.toNat < 0xf0 then 2
  else if 0xf0 ≤ b.toNat ∧ b.toNat < 0xf5 then 3
  else 0

/-- Whether a byte may be the second of a character with the given first one.  Some first bytes do
not go with all continuation bytes: the character would have a shorter form, or be none. -/
def maySecond (b x : UInt8) : Bool :=
  let least := if b = 0xe0 then 0xa0 else if b = 0xf0 then 0x90 else 0x80
  let bound := if b = 0xed then 0xa0 else if b = 0xf4 then 0x90 else 0xc0
  least ≤ x.toNat && x.toNat < bound

/-- The bytes after a first byte that can stand in one character with it. -/
def fitting (b : UInt8) (rest : List UInt8) : List UInt8 :=
  match followers b, rest with
  | n + 1, x :: rest =>
    if maySecond b x then x :: (rest.take n).takeWhile fun y => (continuation? y).isSome else []
  | _, _ => []

/-- The number of bytes of a character that breaks off; none if it is the end of the bytes that cuts
it off. -/
def brokenLength? (b : UInt8) (rest : List UInt8) : Option Nat :=
  let fits := (fitting b rest).length
  if fits < followers b ∧ fits = rest.length then none else some (fits + 1)

/-- The first place where bytes are no UTF-8: the number of bytes before it, and of those at it that
belong together. -/
structure Flaw where
  start : Nat
  length : Option Nat
  deriving DecidableEq, Repr

/-- The text that some bytes encode, or their first flaw. -/
def validate (bytes : List UInt8) : Except Flaw (List Char) :=
  match bytes with
  | [] => .ok []
  | b :: rest =>
    match encodedChar? b rest with
    | none => .error ⟨0, brokenLength? b rest⟩
    | some (c, n) =>
      match validate (rest.drop n) with
      | .ok text => .ok (c :: text)
      | .error flaw => .error { flaw with start := n + 1 + flaw.start }
termination_by bytes.length
decreasing_by
  simp only [List.length_cons, List.length_drop]
  omega

/-- A flaw stands at a byte, and takes one at least. -/
theorem validate_error_bounds {bytes : List UInt8} {flaw : Flaw}
    (h : validate bytes = .error flaw) :
    flaw.start < bytes.length ∧ 0 < flaw.length.getD (bytes.length - flaw.start) := by
  fun_induction validate bytes generalizing flaw with
  | case1 => cases h
  | case2 b rest hc =>
    cases h
    refine ⟨by simp, ?_⟩
    dsimp only [brokenLength?]
    split <;> simp
  | case3 => cases h
  | case4 b rest c n hc inner hr ih =>
    cases h
    have hlt := (ih hr).1
    have hpos := (ih hr).2
    simp only [List.length_drop] at hlt hpos
    refine ⟨by simp only [List.length_cons]; omega, ?_⟩
    cases hlen : inner.length with
    | some k => simpa only [hlen, Option.getD_some] using hpos
    | none =>
      simp only [Option.getD_none, List.length_cons]
      omega

/-- The text of a file that holds nothing but encoded characters. -/
def decode? (bytes : List UInt8) : Option (List Char) :=
  (validate bytes).toOption

/-- The text of a file, with a substitute for every byte of a character that breaks off. -/
def decode (bytes : List UInt8) : List Char :=
  match _h : validate bytes with
  | .ok text => text
  | .error flaw =>
    let broken := flaw.length.getD (bytes.length - flaw.start)
    (decode? (bytes.take flaw.start)).getD [] ++
      (List.replicate broken substitute ++ decode (bytes.drop (flaw.start + broken)))
termination_by bytes.length
decreasing_by
  have hbounds := validate_error_bounds _h
  simp only [List.length_drop]
  omega

end FieldAudit.Text
