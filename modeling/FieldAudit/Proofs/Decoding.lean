import FieldAudit.Text.Utf8
import Mathlib.Data.List.Forall2
import Mathlib.Data.List.TakeDrop
import Mathlib.Data.List.TakeWhile
import Mathlib.Data.String.Basic

/-! # Reading bytes as text

Bytes that are no UTF-8 are read as text all the same: each byte outside an encoded character gives
a substitute of one byte.  Written out again, the text has every byte at its place
(`decode_keeps_offsets`), so an offset into the text is one into the bytes.  Stray continuation
bytes can be skipped one by one or all at once (`decode_stray_append`). -/

namespace FieldAudit.Text

/-- The bytes of a text are those of its characters. -/
@[simp] theorem encode_cons (c : Char) (rest : List Char) :
    encode (c :: rest) = String.utf8EncodeChar c ++ encode rest := rfl

/-- The bytes of a text are those of its parts. -/
theorem encode_append (left right : List Char) :
    encode (left ++ right) = encode left ++ encode right :=
  List.flatMap_append

/-- Valid UTF-8 is what encodes some text. -/
theorem isValidUTF8_iff {bytes : List UInt8} :
    bytes.toByteArray.IsValidUTF8 ↔ ∃ text, bytes = encode text := by
  constructor
  · rintro ⟨text, h⟩
    refine ⟨text, ?_⟩
    have hdata := congrArg (fun b : ByteArray => b.data.toList) h
    simpa only [List.utf8Encode, List.data_toByteArray, encode] using hdata
  · rintro ⟨text, rfl⟩
    exact .intro text rfl

/-! ## One character -/

/-- A code point is accepted only from its least value on, and becomes that character. -/
theorem charFrom?_eq_some {least value : Nat} {c : Char} (h : charFrom? least value = some c) :
    least ≤ value ∧ c.toNat = value := by
  unfold charFrom? at h
  split at h
  next hv =>
    cases h
    refine ⟨hv.1, ?_⟩
    rw [Char.ofNat, dif_pos hv.2]
    rfl
  next => cases h

/-- The code point of a character is accepted as that character. -/
theorem charFrom?_toNat {least : Nat} {c : Char} (h : least ≤ c.toNat) :
    charFrom? least c.toNat = some c := by
  rw [charFrom?, if_pos ⟨h, c.valid⟩, Char.ofNat_toNat]

/-- A continuation byte carries six bits above its marker. -/
theorem continuation?_eq_some {b : UInt8} {x : Nat} (h : continuation? b = some x) :
    x < 64 ∧ b.toNat = x + 128 := by
  unfold continuation? at h
  split at h
  next hb =>
    have hx := Option.some.inj h
    omega
  next => cases h

/-- Six bits above the marker make a continuation byte. -/
theorem continuation?_ofNat {x : Nat} (h : x < 64) :
    continuation? (UInt8.ofNat (x + 128)) = some x := by
  rw [continuation?, UInt8.toNat_ofNat_of_lt' (show x + 128 < 256 by omega), if_pos (by omega),
    Nat.add_sub_cancel]

/-- Code points stay below the end of the code space. -/
theorem toNat_lt (c : Char) : c.toNat < 0x110000 := by
  rcases c.valid with hsmall | ⟨-, hlarge⟩
  · exact Nat.lt_trans hsmall (by decide)
  · exact hlarge

/-- A byte is made again from its own value. -/
theorem ofNat_eq {n : Nat} {b : UInt8} (h : n = b.toNat) : UInt8.ofNat n = b := by
  rw [h, UInt8.ofNat_toNat]

/-- A character that is read starts with the bytes that encode it. -/
theorem encodedChar?_eq_some {b : UInt8} {rest : List UInt8} {c : Char} {n : Nat}
    (h : encodedChar? b rest = some (c, n)) :
    ∃ more, String.utf8EncodeChar c = b :: more ∧ more.length = n ∧ more <+: rest := by
  have hlt := b.toNat_lt
  simp only [encodedChar?, bind, pure] at h
  simp only [String.utf8EncodeChar, Char.toNat_val]
  -- The first byte tells how many bytes there are.  In each form the bytes are the digits of the
  -- value in base 64, and the bound on the value says that no shorter form would do.
  by_cases hone : b.toNat < 0x80
  · rw [if_pos hone] at h
    obtain ⟨rfl, rfl⟩ := Prod.mk.inj (Option.some.inj h)
    have hchar : charFrom? 0 b.toNat = some (Char.ofNat b.toNat) :=
      if_pos ⟨Nat.zero_le _, .inl (by omega)⟩
    rw [(charFrom?_eq_some hchar).2, if_pos (by omega), ofNat_eq rfl]
    exact ⟨[], rfl, rfl, List.nil_prefix⟩
  rw [if_neg hone] at h
  by_cases htwo : 0xc0 ≤ b.toNat ∧ b.toNat < 0xe0
  · rw [if_pos htwo] at h
    simp only [Option.bind_eq_some_iff] at h
    obtain ⟨b₁, hb₁, x, hx, d, hd, hn⟩ := h
    obtain ⟨rfl, rfl⟩ := Prod.mk.inj (Option.some.inj hn)
    obtain ⟨hx, hbx⟩ := continuation?_eq_some hx
    obtain ⟨hleast, hd⟩ := charFrom?_eq_some hd
    rw [if_neg (by omega), if_pos (by omega), ofNat_eq (b := b) (by omega),
      ofNat_eq (b := b₁) (by omega)]
    refine ⟨[b₁], rfl, rfl, ?_⟩
    match rest, hb₁ with
    | _ :: rest, rfl => exact ⟨rest, rfl⟩
  rw [if_neg htwo] at h
  by_cases hthree : 0xe0 ≤ b.toNat ∧ b.toNat < 0xf0
  · rw [if_pos hthree] at h
    simp only [Option.bind_eq_some_iff] at h
    obtain ⟨b₁, hb₁, x, hx, b₂, hb₂, y, hy, d, hd, hn⟩ := h
    obtain ⟨rfl, rfl⟩ := Prod.mk.inj (Option.some.inj hn)
    obtain ⟨hx, hbx⟩ := continuation?_eq_some hx
    obtain ⟨hy, hby⟩ := continuation?_eq_some hy
    obtain ⟨hleast, hd⟩ := charFrom?_eq_some hd
    rw [if_neg (by omega), if_neg (by omega), if_pos (by omega), ofNat_eq (b := b) (by omega),
      ofNat_eq (b := b₁) (by omega), ofNat_eq (b := b₂) (by omega)]
    refine ⟨[b₁, b₂], rfl, rfl, ?_⟩
    match rest, hb₁, hb₂ with
    | _ :: _ :: rest, rfl, rfl => exact ⟨rest, rfl⟩
  rw [if_neg hthree] at h
  by_cases hfour : 0xf0 ≤ b.toNat ∧ b.toNat < 0xf8
  · rw [if_pos hfour] at h
    simp only [Option.bind_eq_some_iff] at h
    obtain ⟨b₁, hb₁, x, hx, b₂, hb₂, y, hy, b₃, hb₃, z, hz, d, hd, hn⟩ := h
    obtain ⟨rfl, rfl⟩ := Prod.mk.inj (Option.some.inj hn)
    obtain ⟨hx, hbx⟩ := continuation?_eq_some hx
    obtain ⟨hy, hby⟩ := continuation?_eq_some hy
    obtain ⟨hz, hbz⟩ := continuation?_eq_some hz
    obtain ⟨hleast, hd⟩ := charFrom?_eq_some hd
    have := toNat_lt d
    rw [if_neg (by omega), if_neg (by omega), if_neg (by omega), ofNat_eq (b := b) (by omega),
      ofNat_eq (b := b₁) (by omega), ofNat_eq (b := b₂) (by omega), ofNat_eq (b := b₃) (by omega)]
    refine ⟨[b₁, b₂, b₃], rfl, rfl, ?_⟩
    match rest, hb₁, hb₂, hb₃ with
    | _ :: _ :: _ :: rest, rfl, rfl, rfl => exact ⟨rest, rfl⟩
  · rw [if_neg hfour] at h
    cases h

/-- The bytes that encode a character are read as it, whatever follows them. -/
theorem encodedChar?_encode {c : Char} {b : UInt8} {more : List UInt8}
    (h : String.utf8EncodeChar c = b :: more) (rest : List UInt8) :
    encodedChar? b (more ++ rest) = some (c, more.length) := by
  have hc := toNat_lt c
  simp only [String.utf8EncodeChar, Char.toNat_val] at h
  -- The same four forms, from the value: `hv` puts its digits together again.
  split at h
  next h₁ =>
    cases h
    simp only [encodedChar?, UInt8.toNat_ofNat_of_lt' (show c.toNat < 256 by omega)]
    rw [if_pos (by omega), Char.ofNat_toNat]
    rfl
  next h₁ =>
    split at h
    next h₂ =>
      cases h
      have hv : (c.toNat / 64 % 32 + 192 - 192) * 64 + c.toNat % 64 = c.toNat := by omega
      have hlead := UInt8.toNat_ofNat_of_lt' (show c.toNat / 64 % 32 + 192 < 256 by omega)
      simp only [encodedChar?, hlead,
        List.cons_append, List.getElem?_cons_zero, bind, Option.bind_some, pure,
        continuation?_ofNat (show c.toNat % 64 < 64 by omega), hv]
      rw [if_neg (by omega), if_pos (by omega), charFrom?_toNat (by omega)]
      rfl
    next h₂ =>
      split at h
      next h₃ =>
        cases h
        have hv : ((c.toNat / 4096 % 16 + 224 - 224) * 64 + c.toNat / 64 % 64) * 64
            + c.toNat % 64 = c.toNat := by omega
        have hlead := UInt8.toNat_ofNat_of_lt' (show c.toNat / 4096 % 16 + 224 < 256 by omega)
        simp only [encodedChar?, hlead,
          List.cons_append, List.getElem?_cons_zero, List.getElem?_cons_succ, bind,
          Option.bind_some, pure, continuation?_ofNat (show c.toNat / 64 % 64 < 64 by omega),
          continuation?_ofNat (show c.toNat % 64 < 64 by omega), hv]
        rw [if_neg (by omega), if_neg (by omega), if_pos (by omega), charFrom?_toNat (by omega)]
        rfl
      next h₃ =>
        cases h
        have hv : (((c.toNat / 262144 % 8 + 240 - 240) * 64 + c.toNat / 4096 % 64) * 64
            + c.toNat / 64 % 64) * 64 + c.toNat % 64 = c.toNat := by omega
        have hlead := UInt8.toNat_ofNat_of_lt' (show c.toNat / 262144 % 8 + 240 < 256 by omega)
        simp only [encodedChar?, hlead,
          List.cons_append, List.getElem?_cons_zero, List.getElem?_cons_succ, bind,
          Option.bind_some, pure, continuation?_ofNat (show c.toNat / 4096 % 64 < 64 by omega),
          continuation?_ofNat (show c.toNat / 64 % 64 < 64 by omega),
          continuation?_ofNat (show c.toNat % 64 < 64 by omega), hv]
        rw [if_neg (by omega), if_neg (by omega), if_neg (by omega), if_pos (by omega),
          charFrom?_toNat (by omega)]
        rfl

/-- The first byte of an encoded character is not a continuation byte. -/
theorem continuation?_lead {c : Char} {b : UInt8} {more : List UInt8}
    (h : String.utf8EncodeChar c = b :: more) : continuation? b = none := by
  cases hb : continuation? b with
  | none => rfl
  | some x =>
    obtain ⟨hx, hbx⟩ := continuation?_eq_some hb
    have hread := encodedChar?_encode h []
    simp only [encodedChar?] at hread
    rw [if_neg (by omega), if_neg (by omega), if_neg (by omega), if_neg (by omega)] at hread
    cases hread

/-- The later bytes of an encoded character are all continuation bytes. -/
theorem continuation?_of_mem {c : Char} {b x : UInt8} {more : List UInt8}
    (h : String.utf8EncodeChar c = b :: more) (hx : x ∈ more) : continuation? x ≠ none := by
  simp only [String.utf8EncodeChar] at h
  split at h
  next => cases h; cases hx
  next =>
    have hcont (n : Nat) : continuation? (UInt8.ofNat (n % 64 + 128)) ≠ none := by
      rw [continuation?_ofNat (Nat.mod_lt _ (by decide))]
      exact Option.some_ne_none _
    split at h
    next =>
      cases h
      rw [List.mem_singleton.1 hx]
      exact hcont _
    next =>
      split at h
      all_goals
        cases h
        simp only [List.mem_cons, List.not_mem_nil, or_false] at hx
        rcases hx with rfl | rfl | rfl
      all_goals exact hcont _

/-! ## Character by character -/

/-- The text of some bytes, one character or one byte outside characters after another. -/
def decodeEach (bytes : List UInt8) : List Char :=
  match bytes with
  | [] => []
  | b :: rest =>
    match encodedChar? b rest with
    | some (c, n) => c :: decodeEach (rest.drop n)
    | none => substitute :: decodeEach rest
termination_by bytes.length
decreasing_by
  · simp only [List.length_cons, List.length_drop]
    omega
  · simp

/-- A character is read off the bytes that encode it. -/
theorem decodeEach_utf8EncodeChar_append (c : Char) (rest : List UInt8) :
    decodeEach (String.utf8EncodeChar c ++ rest) = c :: decodeEach rest := by
  obtain ⟨b, more, h⟩ := List.exists_cons_of_ne_nil (String.utf8EncodeChar_ne_nil (c := c))
  rw [h, List.cons_append, decodeEach, encodedChar?_encode h]
  simp only [List.drop_left]

/-- A text is read off the bytes that encode it. -/
theorem decodeEach_encode_append (text : List Char) (rest : List UInt8) :
    decodeEach (encode text ++ rest) = text ++ decodeEach rest := by
  induction text with
  | nil => rfl
  | cons c text ih =>
    rw [encode_cons, List.append_assoc, decodeEach_utf8EncodeChar_append, ih, List.cons_append]

/-- A byte that starts no character and the continuation bytes after it are substituted one by
one, and reading goes on behind them: it does not matter how many of them are skipped at once. -/
theorem decodeEach_stray_append {b : UInt8} {more after : List UInt8}
    (hb : encodedChar? b (more ++ after) = none) (hmore : ∀ x ∈ more, continuation? x ≠ none) :
    decodeEach (b :: more ++ after) =
      List.replicate (more.length + 1) substitute ++ decodeEach after := by
  induction more generalizing b with
  | nil =>
    rw [List.nil_append] at hb
    rw [List.cons_append, List.nil_append, decodeEach, hb]
    rfl
  | cons x more ih =>
    -- The next byte is a continuation byte, and no character starts with one.
    have hx : encodedChar? x (more ++ after) = none := by
      cases hread : encodedChar? x (more ++ after) with
      | none => rfl
      | some r =>
        obtain ⟨tail, hc, -⟩ := encodedChar?_eq_some hread
        exact absurd (continuation?_lead hc) (hmore x (by simp))
    have hrest := ih hx fun y hy => hmore y (List.mem_cons_of_mem x hy)
    rw [List.cons_append, decodeEach, hb]
    simp only [hrest, List.length_cons]
    rfl

/-! ## From flaw to flaw -/

/-- The bytes that encode a text are read as it. -/
theorem validate_encode (text : List Char) : validate (encode text) = .ok text := by
  induction text with
  | nil => rw [encode, List.flatMap_nil, validate]
  | cons c text ih =>
    obtain ⟨b, more, h⟩ := List.exists_cons_of_ne_nil (String.utf8EncodeChar_ne_nil (c := c))
    rw [encode_cons, h, List.cons_append, validate, encodedChar?_encode h]
    simp only [List.drop_left, ih]

/-- Bytes without a flaw are those of a text. -/
theorem eq_encode_of_validate {bytes : List UInt8} {text : List Char}
    (h : validate bytes = .ok text) : bytes = encode text := by
  fun_induction validate bytes generalizing text with
  | case1 => cases h; rfl
  | case2 => cases h
  | case3 b rest c n hc inner hr ih =>
    cases h
    obtain ⟨more, hb, rfl, tail, rfl⟩ := encodedChar?_eq_some hc
    rw [List.drop_left] at hr ih
    rw [encode_cons, hb, List.cons_append, ih hr]
  | case4 => cases h

/-- A flaw stands behind a text, at a byte that starts no character. -/
theorem validate_eq_error {bytes : List UInt8} {flaw : Flaw} (h : validate bytes = .error flaw) :
    ∃ text b rest, bytes = encode text ++ b :: rest ∧ encodedChar? b rest = none ∧
      flaw = ⟨(encode text).length, brokenLength? b rest⟩ := by
  fun_induction validate bytes generalizing flaw with
  | case1 => cases h
  | case2 b rest hc =>
    cases h
    exact ⟨[], b, rest, rfl, hc, rfl⟩
  | case3 => cases h
  | case4 b rest c n hc inner hr ih =>
    cases h
    obtain ⟨more, hb, rfl, tail, rfl⟩ := encodedChar?_eq_some hc
    rw [List.drop_left] at hr ih
    obtain ⟨text, b', rest', rfl, hnone, rfl⟩ := ih hr
    refine ⟨c :: text, b', rest', ?_, hnone, ?_⟩
    · rw [encode_cons, hb, List.cons_append, List.cons_append, List.append_assoc]
    · simp only [encode_cons, hb, List.length_append, List.length_cons]

/-- The bytes of a text are all that is accepted as text. -/
theorem decode?_eq_some_iff {bytes : List UInt8} {text : List Char} :
    decode? bytes = some text ↔ bytes = encode text := by
  constructor
  · intro h
    unfold decode? at h
    cases hv : validate bytes with
    | ok inner =>
      rw [hv] at h
      cases h
      exact eq_encode_of_validate hv
    | error flaw =>
      rw [hv] at h
      cases h
  · rintro rfl
    rw [decode?, validate_encode]
    rfl

/-- A second byte of a character continues it. -/
theorem continuation?_of_maySecond {b x : UInt8} (h : maySecond b x = true) :
    continuation? x ≠ none := by
  simp only [maySecond, Bool.and_eq_true, decide_eq_true_eq] at h
  have hrange : 0x80 ≤ x.toNat ∧ x.toNat < 0xc0 := by
    refine ⟨le_trans ?_ h.1, lt_of_lt_of_le h.2 ?_⟩ <;> split_ifs <;> decide
  rw [continuation?, if_pos hrange]
  exact Option.some_ne_none _

/-- What fits behind a first byte are continuation bytes at the front. -/
theorem fitting_spec (b : UInt8) (rest : List UInt8) :
    fitting b rest <+: rest ∧ ∀ x ∈ fitting b rest, continuation? x ≠ none := by
  unfold fitting
  split
  next n x rest _ =>
    split
    next hx =>
      refine ⟨List.cons_prefix_cons.2 ⟨rfl, ?_⟩, List.forall_mem_cons.2
        ⟨continuation?_of_maySecond hx, ?_⟩⟩
      · exact (List.takeWhile_prefix _).trans (List.take_prefix n rest)
      · intro y hy
        have hcont := List.mem_takeWhile_imp hy
        exact Option.isSome_iff_ne_none.1 hcont
    next => exact ⟨List.nil_prefix, by simp⟩
  next => exact ⟨List.nil_prefix, by simp⟩

/-- The bytes of a character that breaks off are its first byte and continuation bytes; they are all
that is left, if the end of the bytes cuts it off. -/
theorem brokenLength?_getD (b : UInt8) (rest : List UInt8) :
    ∃ more after, rest = more ++ after ∧ (∀ x ∈ more, continuation? x ≠ none) ∧
      (brokenLength? b rest).getD (rest.length + 1) = more.length + 1 := by
  obtain ⟨⟨after, hafter⟩, hmore⟩ := fitting_spec b rest
  refine ⟨fitting b rest, after, hafter.symm, hmore, ?_⟩
  dsimp only [brokenLength?]
  split
  next hcut => rw [Option.getD_none, hcut.2]
  next => rfl

/-- Reading from flaw to flaw gives the same as reading character by character. -/
theorem decode_eq (bytes : List UInt8) : decode bytes = decodeEach bytes := by
  fun_induction decode bytes with
  | case1 bytes text h =>
    rw [eq_encode_of_validate h]
    simpa [decodeEach] using (decodeEach_encode_append text []).symm
  | case2 bytes flaw h broken ih =>
    obtain ⟨text, b, rest, rfl, hb, rfl⟩ := validate_eq_error h
    obtain ⟨more, after, rfl, hmore, hlength⟩ := brokenLength?_getD b rest
    have hbroken : broken = more.length + 1 := by
      rw [← hlength]
      simp [broken]
    have htext : decode? (encode text) = some text := decode?_eq_some_iff.2 rfl
    rw [hbroken, ← List.cons_append, List.drop_length_add_append] at ih
    rw [hbroken, ← List.cons_append, decodeEach_encode_append, decodeEach_stray_append hb hmore]
    simp only [List.take_left, htext, Option.getD_some]
    rw [List.drop_length_add_append, ih]
    simp

/-- A character is read off the bytes that encode it, whatever follows. -/
theorem decode_utf8EncodeChar_append (c : Char) (rest : List UInt8) :
    decode (String.utf8EncodeChar c ++ rest) = c :: decode rest := by
  rw [decode_eq, decode_eq, decodeEach_utf8EncodeChar_append]

/-- A text is read off the bytes that encode it. -/
theorem decode_encode (text : List Char) : decode (encode text) = text := by
  rw [decode, validate_encode]

/-! ## Around a character -/

/-- Whether some bytes do not start in the middle of a character. -/
def StartsAfresh (bytes : List UInt8) : Prop :=
  ∀ b ∈ bytes.head?, continuation? b = none

/-- Bytes that begin with an encoded character start afresh. -/
theorem StartsAfresh.utf8EncodeChar_append (c : Char) (rest : List UInt8) :
    StartsAfresh (String.utf8EncodeChar c ++ rest) := by
  obtain ⟨b, more, h⟩ := List.exists_cons_of_ne_nil (String.utf8EncodeChar_ne_nil (c := c))
  intro x hx
  rw [h, List.cons_append, List.head?_cons, Option.mem_some_iff] at hx
  rw [← hx]
  exact continuation?_lead h

/-- What a leading byte decodes to is settled before any bytes that start afresh. -/
theorem encodedChar?_append {b : UInt8} {rest after : List UInt8} (h : StartsAfresh after) :
    encodedChar? b (rest ++ after) = encodedChar? b rest := by
  have hgrow {c : Char} {n : Nat} (hs : encodedChar? b rest = some (c, n)) :
      encodedChar? b (rest ++ after) = some (c, n) := by
    obtain ⟨more, hc, rfl, tail, rfl⟩ := encodedChar?_eq_some hs
    rw [List.append_assoc]
    exact encodedChar?_encode hc _
  cases hr : encodedChar? b (rest ++ after) with
  | none =>
    cases hs : encodedChar? b rest with
    | none => rfl
    | some r => rw [hgrow hs] at hr; cases hr
  | some r =>
    obtain ⟨c, n⟩ := r
    obtain ⟨more, hc, rfl, hmore⟩ := encodedChar?_eq_some hr
    -- The character ends before `after`, whose first byte continues nothing.
    rcases List.prefix_or_prefix_of_prefix hmore (List.prefix_append rest after) with
      ⟨tail, rfl⟩ | ⟨tail, rfl⟩
    · rw [encodedChar?_encode hc]
    · have htail := (List.prefix_append_right_inj rest).1 hmore
      cases tail with
      | nil =>
        rw [List.append_nil] at hc
        have hread := encodedChar?_encode hc []
        rw [List.append_nil] at hread
        rw [hread, List.append_nil]
      | cons x tail =>
        have hx : x ∈ after.head? := by
          obtain ⟨rest', rfl⟩ := htail
          simp
        exact absurd (h x hx) (continuation?_of_mem hc (by simp))

/-- What stands before the start of a character is read as if nothing followed. -/
theorem decode_append {before after : List UInt8} (h : StartsAfresh after) :
    decode (before ++ after) = decode before ++ decode after := by
  simp only [decode_eq]
  fun_induction decodeEach before with
  | case1 => rfl
  | case2 b rest c n hc ih =>
    obtain ⟨more, -, rfl, tail, rfl⟩ := encodedChar?_eq_some hc
    rw [List.drop_left] at ih
    rw [List.cons_append, decodeEach, encodedChar?_append h, hc]
    simp only [List.append_assoc, List.drop_left, ih, List.cons_append]
  | case3 b rest hc ih =>
    rw [List.cons_append, decodeEach, encodedChar?_append h, hc]
    simp only [ih, List.cons_append]

/-- The substitute character is one byte. -/
theorem utf8EncodeChar_substitute : String.utf8EncodeChar substitute = [0x1a] := by
  decide

/-- Byte by byte, reading keeps what it does not substitute. -/
theorem forall₂_encode_decode (bytes : List UInt8) :
    List.Forall₂ (fun r b => r = b ∨ r = 0x1a) (encode (decode bytes)) bytes := by
  rw [decode_eq]
  fun_induction decodeEach bytes with
  | case1 => exact .nil
  | case2 b rest c n hc ih =>
    obtain ⟨more, hb, rfl, tail, rfl⟩ := encodedChar?_eq_some hc
    rw [List.drop_left] at ih
    rw [encode_cons, hb, ← List.cons_append, List.drop_left]
    exact List.rel_append (List.forall₂_same.2 fun _ _ => .inl rfl) ih
  | case3 b rest hc ih =>
    rw [encode_cons, utf8EncodeChar_substitute]
    exact .cons (.inr rfl) ih

/-- Decoding keeps the number of bytes, since what cannot be read is replaced byte by byte. -/
theorem length_encode_decode (bytes : List UInt8) :
    (encode (decode bytes)).length = bytes.length :=
  (forall₂_encode_decode bytes).length_eq

/-- The bytes of an encoded character stay where they are. -/
theorem encode_decode_around (before : List UInt8) (c : Char) (after : List UInt8) :
    encode (decode (before ++ (String.utf8EncodeChar c ++ after)))
      = encode (decode before) ++ (String.utf8EncodeChar c ++ encode (decode after)) := by
  rw [decode_append (.utf8EncodeChar_append c after), decode_utf8EncodeChar_append, encode,
    List.flatMap_append]
  rfl

/-- The bytes of an encoded character are kept. -/
theorem getElem?_encode_decode_around {bytes before after : List UInt8} {c : Char} {i : Nat}
    (hbytes : bytes = before ++ (String.utf8EncodeChar c ++ after)) (hle : before.length ≤ i)
    (hlt : i < before.length + c.utf8Size) : (encode (decode bytes))[i]? = bytes[i]? := by
  have hbefore := length_encode_decode before
  rw [← String.length_utf8EncodeChar] at hlt
  -- What stands around the character does not matter, only how many bytes stand before it.
  have hmiddle {left right : List UInt8} (hl : left.length = before.length) :
      (left ++ (String.utf8EncodeChar c ++ right))[i]?
        = (String.utf8EncodeChar c)[i - before.length]? := by
    rw [List.getElem?_append_right (by omega), hl, List.getElem?_append_left (by omega)]
  rw [hbytes, encode_decode_around, hmiddle hbefore, hmiddle rfl]

/-- A byte of ASCII is the whole of a character. -/
theorem utf8EncodeChar_of_ascii {b : UInt8} (hb : b < 0x80) :
    String.utf8EncodeChar (Char.ofNat b.toNat) = [b] := by
  have hread : encodedChar? b [] = some (Char.ofNat b.toNat, 0) := by
    have hb : b.toNat < 0x80 := UInt8.lt_iff_toNat_lt.1 hb
    rw [encodedChar?, if_pos hb]
  obtain ⟨more, hc, hmore, -⟩ := encodedChar?_eq_some hread
  rw [hc, List.length_eq_zero_iff.1 hmore]

/-- A byte of ASCII is kept, also behind a character that breaks off. -/
theorem getElem?_encode_decode_of_ascii {bytes : List UInt8} {b : UInt8} {i : Nat}
    (hi : bytes[i]? = some b) (hb : b < 0x80) : (encode (decode bytes))[i]? = some b := by
  obtain ⟨hlt, hget⟩ := List.getElem?_eq_some_iff.1 hi
  have hone := utf8EncodeChar_of_ascii hb
  have hsplit : bytes = bytes.take i ++ (String.utf8EncodeChar (Char.ofNat b.toNat)
      ++ bytes.drop (i + 1)) := by
    rw [hone, List.singleton_append, ← hget, List.cons_getElem_drop_succ, List.take_append_drop]
  have hsize : (Char.ofNat b.toNat).utf8Size = 1 := by
    rw [← String.length_utf8EncodeChar, hone]
    rfl
  have htake : (bytes.take i).length = i := by simp [hlt.le]
  rw [getElem?_encode_decode_around hsplit (by omega) (by omega), hi]

/-- The bytes are kept just if they are UTF-8. -/
theorem encode_decode_eq_iff {bytes : List UInt8} :
    encode (decode bytes) = bytes ↔ bytes.toByteArray.IsValidUTF8 := by
  rw [isValidUTF8_iff]
  constructor
  · intro h
    exact ⟨decode bytes, h.symm⟩
  · rintro ⟨text, rfl⟩
    rw [decode_encode]

/-- The text of any bytes, written out again, has the bytes at their places: each is kept or
substituted, and those of ASCII and of encoded characters are kept.  All are kept just if the bytes
are UTF-8, and reading them a second time changes nothing. -/
theorem decode_keeps_offsets (bytes : List UInt8) :
    let kept := encode (decode bytes)
    kept.toByteArray.IsValidUTF8
      ∧ kept.length = bytes.length
      ∧ (∀ i < bytes.length, kept[i]? = bytes[i]? ∨ kept[i]? = some 0x1a)
      ∧ (∀ (i : Nat) (b : UInt8), bytes[i]? = some b → b < 0x80 → kept[i]? = some b)
      ∧ (∀ before c after, bytes = before ++ (String.utf8EncodeChar c ++ after) →
          ∀ i, before.length ≤ i → i < before.length + c.utf8Size → kept[i]? = bytes[i]?)
      ∧ (kept = bytes ↔ bytes.toByteArray.IsValidUTF8)
      ∧ decode kept = decode bytes := by
  have hlength := length_encode_decode bytes
  refine ⟨.intro _ rfl, hlength, ?_, ?_, ?_, encode_decode_eq_iff, decode_encode _⟩
  · intro i hi
    have hrel := (List.forall₂_iff_get.1 (forall₂_encode_decode bytes)).2 i (by omega) hi
    rw [List.getElem?_eq_getElem (by omega), List.getElem?_eq_getElem hi]
    simpa using hrel
  · intro i b hi hb
    exact getElem?_encode_decode_of_ascii hi hb
  · intro before c after hbytes i hle hlt
    exact getElem?_encode_decode_around hbytes hle hlt

end FieldAudit.Text
