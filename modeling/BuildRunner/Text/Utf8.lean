/-!
# UTF-8 text

Programs write bytes, and what they wrote is read as UTF-8.  An invalid sequence is read as one
replacement character for each maximal prefix that could still have been completed, so that reading
resumes at the first byte that cannot continue the sequence.  A carriage return, with the line feed
that may follow it, is read as one line feed.
-/

namespace BuildRunner.Text

abbrev Bytes := List UInt8

/-- The character that stands for an invalid sequence. -/
def replacement : Char := '\uFFFD'

/-- The bytes of a text. -/
def encode (s : List Char) : Bytes := s.flatMap String.utf8EncodeChar

/-- Whether `b` lies between `low` and `high`. -/
def between (low high b : UInt8) : Bool := low ≤ b && b ≤ high

/-- A byte that continues a sequence. -/
def isContinuation (b : UInt8) : Bool := between 0x80 0xbf b

/-- The payload of a continuation byte. -/
def payload (b : UInt8) : Nat := b.toNat % 0x40

/-- The bytes that may follow the first byte `a` of a sequence of three. -/
def secondOfThree (a b : UInt8) : Bool :=
  if a = 0xe0 then between 0xa0 0xbf b
  else if a = 0xed then between 0x80 0x9f b
  else isContinuation b

/-- The bytes that may follow the first byte `a` of a sequence of four. -/
def secondOfFour (a b : UInt8) : Bool :=
  if a = 0xf0 then between 0x90 0xbf b
  else if a = 0xf4 then between 0x80 0x8f b
  else isContinuation b

/-- The text of a byte sequence, with replacement characters where it is not UTF-8. -/
def decodeUtf8 : Bytes → List Char
  | [] => []
  | a :: r =>
    if a < 0x80 then Char.ofNat a.toNat :: decodeUtf8 r
    else if between 0xc2 0xdf a then
      match r with
      | [] => [replacement]
      | b :: r₁ =>
        if isContinuation b then
          Char.ofNat (a.toNat % 0x20 * 0x40 + payload b) :: decodeUtf8 r₁
        else replacement :: decodeUtf8 (b :: r₁)
    else if between 0xe0 0xef a then
      match r with
      | [] => [replacement]
      | [b] => if secondOfThree a b then [replacement] else replacement :: decodeUtf8 [b]
      | b :: c :: r₂ =>
        if secondOfThree a b then
          if isContinuation c then
            Char.ofNat ((a.toNat % 0x10 * 0x40 + payload b) * 0x40 + payload c) :: decodeUtf8 r₂
          else replacement :: decodeUtf8 (c :: r₂)
        else replacement :: decodeUtf8 (b :: c :: r₂)
    else if between 0xf0 0xf4 a then
      match r with
      | [] => [replacement]
      | [b] => if secondOfFour a b then [replacement] else replacement :: decodeUtf8 [b]
      | [b, c] =>
        if secondOfFour a b then
          if isContinuation c then [replacement] else replacement :: decodeUtf8 [c]
        else replacement :: decodeUtf8 [b, c]
      | b :: c :: d :: r₃ =>
        if secondOfFour a b then
          if isContinuation c then
            if isContinuation d then
              Char.ofNat (((a.toNat % 0x08 * 0x40 + payload b) * 0x40 + payload c) * 0x40 +
                payload d) :: decodeUtf8 r₃
            else replacement :: decodeUtf8 (d :: r₃)
          else replacement :: decodeUtf8 (c :: d :: r₃)
        else replacement :: decodeUtf8 (b :: c :: d :: r₃)
    else replacement :: decodeUtf8 r

/-- The text with every line end written as one line feed. -/
def unifyLineEnds : List Char → List Char
  | [] => []
  | '\r' :: '\n' :: r => '\n' :: unifyLineEnds r
  | c :: r => (if c = '\r' then '\n' else c) :: unifyLineEnds r

/-- The text that a program's output is read as. -/
def decode (bytes : Bytes) : List Char := unifyLineEnds (decodeUtf8 bytes)

/-- The text of a byte sequence that is valid UTF-8. -/
def decodeStrict? (bytes : Bytes) : Option (List Char) :=
  let s := decodeUtf8 bytes
  if encode s = bytes then some s else none

end BuildRunner.Text
