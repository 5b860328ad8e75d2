import ResourcePruner.Text.Digits

/-!
# Text and bytes

UTF-8 as a machine that takes one byte at a time and holds the sequence it is in the middle of.
`Utf8.pieces` cuts bytes into characters and defects, a defect being a longest run of bytes that
could still have begun a character. On that single reading rest both decoders: `Utf8.decode?`
refuses at the first defect and says where it is, `Utf8.decodeReplacing` puts the replacement
character for each. Halves of surrogate pairs have no bytes in UTF-8; in the names of files, some of
them stand for single bytes that are no character (`Utf8.escapedByte?`).
-/

namespace ResourcePruner

/-- The content of a file. -/
abbrev Bytes := List UInt8

namespace Utf8

/-- Why some bytes are no character. -/
inductive Defect where
  /-- The byte begins no character. -/
  | invalidStart
  /-- The byte after these does not go on with the character that they begin. -/
  | invalidContinuation
  /-- The bytes end inside a character. -/
  | unexpectedEnd
  deriving DecidableEq, Repr

/-- What a reading of bytes finds. -/
inductive Piece where
  | char (c : Char)
  | defect (cause : Defect) (bytes : Bytes)
  deriving DecidableEq

/-- A character that has begun: its bytes so far, the bits they carry, the number of bytes still
missing, and the bounds on the next one. -/
structure Sequence where
  seen : Bytes
  bits : Nat
  missing : Nat
  low : Nat
  high : Nat

/-- The sequence that `b` begins, none when it begins none of two bytes or more. The bounds on the
second byte shut out overlong forms, surrogates and numbers beyond the last character. -/
def Sequence.begin? (b : UInt8) : Option Sequence :=
  let n := b.toNat
  if n < 0xC2 then none
  else if n < 0xE0 then some ⟨[b], n - 0xC0, 1, 0x80, 0xBF⟩
  else if n < 0xF0 then
    some ⟨[b], n - 0xE0, 2, if n = 0xE0 then 0xA0 else 0x80, if n = 0xED then 0x9F else 0xBF⟩
  else if n < 0xF5 then
    some ⟨[b], n - 0xF0, 3, if n = 0xF0 then 0x90 else 0x80, if n = 0xF4 then 0x8F else 0xBF⟩
  else none

/-- What a byte at the start of a character yields, and the sequence then open. -/
def start (b : UInt8) : List Piece × Option Sequence :=
  if b.toNat < 0x80 then ([.char (Char.ofNat b.toNat)], none)
  else
    match Sequence.begin? b with
    | some opened => ([], some opened)
    | none => ([.defect .invalidStart [b]], none)

/-- What the next byte yields, and the sequence then open. -/
def step (opened : Option Sequence) (b : UInt8) : List Piece × Option Sequence :=
  match opened with
  | none => start b
  | some s =>
    if s.low ≤ b.toNat && b.toNat ≤ s.high then
      let bits := s.bits * 64 + (b.toNat - 0x80)
      if s.missing ≤ 1 then ([.char (Char.ofNat bits)], none)
      else ([], some ⟨s.seen ++ [b], bits, s.missing - 1, 0x80, 0xBF⟩)
    else
      let (pieces, next) := start b
      (.defect .invalidContinuation s.seen :: pieces, next)

/-- The pieces of the bytes that follow an open sequence. -/
def piecesAfter (opened : Option Sequence) : Bytes → List Piece
  | [] =>
    match opened with
    | none => []
    | some s => [.defect .unexpectedEnd s.seen]
  | b :: rest =>
    let (pieces, next) := step opened b
    pieces ++ piecesAfter next rest

/-- The characters and defects of some bytes, in order. -/
def pieces (bytes : Bytes) : List Piece :=
  piecesAfter none bytes

/-- The first defect of some bytes and the number of bytes before it. -/
structure Fault where
  cause : Defect
  bytes : Bytes
  position : Nat
  deriving DecidableEq

/-- The text of the pieces, refused at the first defect; `position` counts the bytes before them. -/
def collect (position : Nat) : List Piece → Except Fault Text
  | [] => .ok []
  | .char c :: rest => (collect (position + c.utf8Size) rest).map (.char c :: ·)
  | .defect cause bytes :: _ => .error ⟨cause, bytes, position⟩

/-- The text that some bytes spell, refused at the first defect. -/
def decode? (bytes : Bytes) : Except Fault Text :=
  collect 0 (pieces bytes)

/-- The character of a piece, the replacement character for a defect. -/
def Piece.shown : Piece → Symbol
  | .char c => c
  | .defect _ _ => '\uFFFD'

/-- The text that some bytes spell, with one replacement character for each defect. -/
def decodeReplacing (bytes : Bytes) : Text :=
  (pieces bytes).map Piece.shown

/-- The number of the half that stands for the byte 0. -/
def firstEscape : Nat := 1024

/-- The half that stands for a byte. -/
def escapeOf (b : UInt8) : Symbol := .ofCode (Symbol.firstHalf + firstEscape + b.toNat)

/-- The byte beyond ASCII that a half stands for in the name of a file. -/
def escapedByte? (n : Fin 2048) : Option UInt8 :=
  if firstEscape + 0x80 ≤ n.val && n.val ≤ firstEscape + 0xFF then
    some (UInt8.ofNat (n - firstEscape))
  else
    none

/-- The symbols of a piece, each byte of a defect being escaped. -/
def Piece.escaped : Piece → Text
  | .char c => [.char c]
  | .defect _ bytes => bytes.map escapeOf

/-- The name that some bytes spell. -/
def decodeName (bytes : Bytes) : Text :=
  (pieces bytes).flatMap Piece.escaped

/-- The bytes of a character. -/
def encodeChar (c : Char) : Bytes :=
  let n := c.toNat
  if n < 0x80 then [UInt8.ofNat n]
  else if n < 0x800 then [UInt8.ofNat (0xC0 + n / 64), UInt8.ofNat (0x80 + n % 64)]
  else if n < 0x10000 then
    [UInt8.ofNat (0xE0 + n / 4096), UInt8.ofNat (0x80 + n / 64 % 64), UInt8.ofNat (0x80 + n % 64)]
  else
    [UInt8.ofNat (0xF0 + n / 262144), UInt8.ofNat (0x80 + n / 4096 % 64),
      UInt8.ofNat (0x80 + n / 64 % 64), UInt8.ofNat (0x80 + n % 64)]

/-- The bytes of a symbol: those of a character, the byte that a half stands for, none for any other
half. -/
def encodeSymbol : Symbol → Bytes
  | .char c => encodeChar c
  | .half n => (escapedByte? n).toList

/-- The bytes of a text. -/
def encode (text : Text) : Bytes :=
  text.flatMap encodeSymbol

/-- A run of halves that cannot be encoded, and the number of symbols before it. -/
structure EncodeFault where
  first : Symbol
  length : Nat
  position : Nat
  deriving DecidableEq, Repr

/-- The first fault of a text that is to be encoded, `position` symbols after its beginning, where
the halves that `isEncodable` admits are none. -/
def faultFrom (isEncodable : Fin 2048 → Bool) (position : Nat) : Text → Option EncodeFault
  | [] => none
  | .half n :: rest =>
    if isEncodable n then faultFrom isEncodable (position + 1) rest
    else some ⟨.half n, (rest.takeWhile Symbol.isHalf).length + 1, position⟩
  | _ :: rest => faultFrom isEncodable (position + 1) rest

/-- Why a text cannot be the content of a file. -/
def textFault? (text : Text) : Option EncodeFault :=
  faultFrom (fun _ => false) 0 text

/-- Why a text cannot be the path of a file. -/
def nameFault? (text : Text) : Option EncodeFault :=
  faultFrom (fun n => (escapedByte? n).isSome) 0 text

/-- A name as a directory lists it: halves that together stand for the bytes of a character have
become that character. -/
def canonicalName (name : Text) : Text :=
  if name.any Symbol.isHalf then decodeName (encode name) else name

/-- The wording of a defect. -/
def Defect.reason : Defect → Text
  | .invalidStart => "invalid start byte"
  | .invalidContinuation => "invalid continuation byte"
  | .unexpectedEnd => "unexpected end of data"

/-- What a refusal to decode says: the byte itself when it is one, else the span of bytes. -/
def Fault.message (fault : Fault) : Text :=
  let first := Text.decimal fault.position
  match fault.bytes with
  | [b] =>
    "'utf-8' codec can't decode byte 0x" ++ Text.fixedDigits 16 2 b.toNat ++ " in position " ++
      first ++ ": " ++ fault.cause.reason
  | bytes =>
    "'utf-8' codec can't decode bytes in position " ++ first ++ "-" ++
      Text.decimal (fault.position + bytes.length - 1) ++ ": " ++ fault.cause.reason

/-- What a refusal to encode says: the half itself when it is one, else the span of halves. -/
def EncodeFault.message (fault : EncodeFault) : Text :=
  let first := Text.decimal fault.position
  if fault.length = 1 then
    "'utf-8' codec can't encode character '\\u" ++ Text.fixedDigits 16 4 fault.first.code ++
      "' in position " ++ first ++ ": surrogates not allowed"
  else
    "'utf-8' codec can't encode characters in position " ++ first ++ "-" ++
      Text.decimal (fault.position + fault.length - 1) ++ ": surrogates not allowed"

end Utf8

end ResourcePruner
