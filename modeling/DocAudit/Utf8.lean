import DocAudit.Text

/-!
# UTF-8

Files are octets and texts are characters.  `encode` writes a text in UTF-8,
`decode?` reads octets that are well formed, and `decodeLossy` reads any
octets: each longest malformed piece, that is, a lead octet with as many
continuations as could belong to a character, becomes one U+FFFD.

The main statements are that decoding undoes encoding, and that it decodes
nothing else.
-/

namespace DocAudit

/-- The content of a file. -/
abbrev Octets := List UInt8

namespace Utf8

/-- The UTF-8 form of a text. -/
def encode (t : Text) : Octets := t.flatMap String.utf8EncodeChar

theorem encode_cons (c : Char) (t : Text) :
    encode (c :: t) = String.utf8EncodeChar c ++ encode t :=
  List.flatMap_cons

theorem encode_append (s t : Text) : encode (s ++ t) = encode s ++ encode t :=
  List.flatMap_append

/-- The text of octets that are well formed. -/
def decode? (octets : Octets) : Option Text := octets.toByteArray.utf8Decode?.map Array.toList

/-- Every text comes back from its UTF-8 form. -/
theorem decode?_encode (t : Text) : decode? (encode t) = some t := by
  have h : (encode t).toByteArray = t.utf8Encode := rfl
  simp [decode?, h]

/-- Octets have a text exactly if they are its UTF-8 form. -/
theorem decode?_eq_some_iff (octets : Octets) (t : Text) :
    decode? octets = some t ↔ octets = encode t := by
  constructor
  · intro h
    obtain ⟨chars, hchars, -⟩ := Option.map_eq_some_iff.1 h
    have hvalid : octets.toByteArray.IsValidUTF8 := by
      rw [← ByteArray.isSome_utf8Decode?_iff, hchars]
      rfl
    obtain ⟨source, hsource⟩ := hvalid
    have hoctets : octets = encode source := by
      have hdata := congrArg (fun bytes => bytes.data.toList) hsource
      simpa [List.utf8Encode, encode] using hdata
    rw [hoctets, decode?_encode] at h
    rw [hoctets, Option.some.inj h]
  · rintro rfl
    exact decode?_encode t

/-- The character that stands for a malformed piece. -/
def replacement : Char := Char.ofNat 0xFFFD

/-- Whether an octet lies in a range. -/
def within (low high : Nat) (octet : UInt8) : Bool := low ≤ octet.toNat && octet.toNat ≤ high

/-- Reads `count` plain continuations onto the bits that are known already. -/
def readTail (bits : Nat) : (count : Nat) → Octets → Char × Octets
  | 0, rest => (Char.ofNat bits, rest)
  | _ + 1, [] => (replacement, [])
  | count + 1, octet :: rest =>
      if within 0x80 0xBF octet then readTail (bits * 64 + octet.toNat % 64) count rest
      else (replacement, octet :: rest)

/-- Reads a first continuation from a range of its own, then plain ones. -/
def readBody (bits low high count : Nat) : Octets → Char × Octets
  | [] => (replacement, [])
  | octet :: rest =>
      if within low high octet then readTail (bits * 64 + octet.toNat % 64) count rest
      else (replacement, octet :: rest)

/-- Reads the character that a lead octet starts, or the malformed piece in its place. -/
def readChar (lead : UInt8) (rest : Octets) : Char × Octets :=
  let n := lead.toNat
  if n < 0x80 then (Char.ofNat n, rest)
  else if n < 0xC2 then (replacement, rest)
  else if n < 0xE0 then readBody (n % 32) 0x80 0xBF 0 rest
  else if n < 0xF0 then
    readBody (n % 16) (if n = 0xE0 then 0xA0 else 0x80) (if n = 0xED then 0x9F else 0xBF) 1 rest
  else if n < 0xF5 then
    readBody (n % 8) (if n = 0xF0 then 0x90 else 0x80) (if n = 0xF4 then 0x8F else 0xBF) 2 rest
  else (replacement, rest)

theorem length_readTail_le (bits count : Nat) (octets : Octets) :
    (readTail bits count octets).2.length ≤ octets.length := by
  induction count generalizing bits octets with
  | zero => simp [readTail]
  | succ count ih =>
      cases octets with
      | nil => simp [readTail]
      | cons octet rest =>
          simp only [readTail]
          split
          · exact Nat.le_succ_of_le (ih _ _)
          · simp

theorem length_readBody_le (bits low high count : Nat) (octets : Octets) :
    (readBody bits low high count octets).2.length ≤ octets.length := by
  cases octets with
  | nil => simp [readBody]
  | cons octet rest =>
      simp only [readBody]
      split
      · exact Nat.le_succ_of_le (length_readTail_le _ _ _)
      · simp

theorem length_readChar_le (lead : UInt8) (rest : Octets) :
    (readChar lead rest).2.length ≤ rest.length := by
  simp only [readChar]
  repeat' split
  all_goals first | exact Nat.le_refl _ | exact length_readBody_le _ _ _ _ _

/-- The text of any octets, malformed pieces replaced. -/
def decodeLossy : Octets → Text
  | [] => []
  | lead :: rest =>
      let read := readChar lead rest
      read.1 :: decodeLossy read.2
termination_by octets => octets.length
decreasing_by exact Nat.lt_succ_of_le (length_readChar_le lead rest)

end Utf8

namespace Text

/-- The number of octets that a text takes up. -/
def octetCount (t : Text) : Nat := (Utf8.encode t).length

/-- What a text has from an offset on, which counts octets.  There is no answer for an offset within
a character or behind the end. -/
def sliceFrom? : Text → (offset : Nat) → Option Text
  | t, 0 => some t
  | [], _ + 1 => none
  | c :: t, offset + 1 =>
      if c.utf8Size ≤ offset + 1 then sliceFrom? t (offset + 1 - c.utf8Size) else none

end Text

end DocAudit
