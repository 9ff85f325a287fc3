import SchemaLedger.Text.Basic

/-!
# UTF-8

Files hold bytes and the library works on texts.  Reading locates the first
fault, because the message about an unreadable file names the offending bytes;
writing locates the first surrogate.
-/

namespace SchemaLedger

abbrev Bytes := List UInt8

namespace Utf8

/-! ## Writing -/

/-- The bytes of a code point.  An escape is the byte that it stands for; other
surrogates are spelled like characters, which nothing that is written holds. -/
def bytesOf (c : CodePoint) : Bytes :=
  match c with
  | .char c => String.utf8EncodeChar c
  | .surrogate offset =>
    if c.isEscape then [UInt8.ofNat offset]
    else [0xED, UInt8.ofNat (0xA0 + offset / 64), UInt8.ofNat (0x80 + offset % 64)]

def encode (t : Text) : Bytes :=
  t.flatMap bytesOf

/-- The first place where a text cannot be written: `length` surrogates from
`start` on, the first of them being `first`. -/
structure Unencodable where
  start : Nat
  length : Nat
  first : CodePoint
deriving DecidableEq, Repr

def Unencodable.message (f : Unencodable) : Text :=
  let place :=
    if f.length = 1 then
      "character '\\u".text ++ Text.hex 4 f.first.toNat ++ "' in position ".text ++
        Text.ofNat f.start
    else
      "characters in position ".text ++ Text.ofNat f.start ++ [.char '-'] ++
        Text.ofNat (f.start + f.length - 1)
  "'utf-8' codec can't encode ".text ++ place ++ ": surrogates not allowed".text

/-- Where a text that begins at `start` holds a code point that is not fit to be
written.  The surrogates right behind it are counted along. -/
def unencodable? (fits : CodePoint → Bool) (start : Nat) : Text → Option Unencodable
  | [] => none
  | c :: rest =>
    if fits c then unencodable? fits (start + 1) rest
    else some ⟨start, ((c :: rest).takeWhile (!·.isChar)).length, c⟩

/-- The bytes of a text for a file or a stream, which take no escapes. -/
def encodeStrict (t : Text) : Except Unencodable Bytes :=
  match unencodable? CodePoint.isChar 0 t with
  | some fault => .error fault
  | none => .ok (encode t)

/-! ## Reading -/

inductive Reason
  | invalidStart
  | invalidContinuation
  | unexpectedEnd
deriving DecidableEq, Repr

/-- The first place where a row of bytes stops being UTF-8: `length` bytes from
`start` on, the first of them being `byte`. -/
structure Fault where
  start : Nat
  length : Nat
  byte : UInt8
  reason : Reason
deriving DecidableEq, Repr

def Reason.text : Reason → Text
  | .invalidStart => "invalid start byte".text
  | .invalidContinuation => "invalid continuation byte".text
  | .unexpectedEnd => "unexpected end of data".text

/-- A single offending byte is shown by its value, several by their places. -/
def Fault.message (f : Fault) : Text :=
  let place :=
    if f.length = 1 then
      "byte 0x".text ++ Text.hex 2 f.byte.toNat ++ " in position ".text ++ Text.ofNat f.start
    else
      "bytes in position ".text ++ Text.ofNat f.start ++ [.char '-'] ++
        Text.ofNat (f.start + f.length - 1)
  "'utf-8' codec can't decode ".text ++ place ++ ": ".text ++ f.reason.text

/-- How many bytes follow a first byte; nothing for a byte that starts no
character.  The bytes `C0`, `C1` and those from `F5` on could only start
overlong forms or values beyond the last code point. -/
def continuations? (b : UInt8) : Option Nat :=
  if b < 0x80 then some 0
  else if b < 0xC2 then none
  else if b < 0xE0 then some 1
  else if b < 0xF0 then some 2
  else if b < 0xF5 then some 3
  else none

/-- Whether `b` may stand second behind `first`.  After four first bytes the
range is narrower: overlong forms, surrogates and values beyond the last code
point are refused here. -/
def isSecond (first b : UInt8) : Bool :=
  let low := if first = 0xE0 then 0xA0 else if first = 0xF0 then 0x90 else 0x80
  let high := if first = 0xED then 0x9F else if first = 0xF4 then 0x8F else 0xBF
  low ≤ b && b ≤ high

def isContinuation (b : UInt8) : Bool :=
  0x80 ≤ b && b ≤ 0xBF

def payload (b : UInt8) : Nat :=
  b.toNat % 64

def decodeFrom (start : Nat) : Bytes → Except Fault Text
  | [] => .ok []
  | b :: rest =>
    let fault (length : Nat) (reason : Reason) : Except Fault Text :=
      .error ⟨start, length, b, reason⟩
    match continuations? b with
    | none => fault 1 .invalidStart
    | some 0 => (decodeFrom (start + 1) rest).map (CodePoint.ofNat b.toNat :: ·)
    | some 1 =>
      match rest with
      | [] => fault 1 .unexpectedEnd
      | b₁ :: rest =>
        if !isSecond b b₁ then fault 1 .invalidContinuation
        else (decodeFrom (start + 2) rest).map
          (CodePoint.ofNat (b.toNat % 32 * 64 + payload b₁) :: ·)
    | some 2 =>
      match rest with
      | [] => fault 1 .unexpectedEnd
      | b₁ :: rest =>
        if !isSecond b b₁ then fault 1 .invalidContinuation
        else match rest with
        | [] => fault 2 .unexpectedEnd
        | b₂ :: rest =>
          if !isContinuation b₂ then fault 2 .invalidContinuation
          else (decodeFrom (start + 3) rest).map
            (CodePoint.ofNat ((b.toNat % 16 * 64 + payload b₁) * 64 + payload b₂) :: ·)
    | some _ =>
      match rest with
      | [] => fault 1 .unexpectedEnd
      | b₁ :: rest =>
        if !isSecond b b₁ then fault 1 .invalidContinuation
        else match rest with
        | [] => fault 2 .unexpectedEnd
        | b₂ :: rest =>
          if !isContinuation b₂ then fault 2 .invalidContinuation
          else match rest with
          | [] => fault 3 .unexpectedEnd
          | b₃ :: rest =>
            if !isContinuation b₃ then fault 3 .invalidContinuation
            else (decodeFrom (start + 4) rest).map
              (CodePoint.ofNat
                (((b.toNat % 8 * 64 + payload b₁) * 64 + payload b₂) * 64 + payload b₃) :: ·)

def decode (bytes : Bytes) : Except Fault Text :=
  decodeFrom 0 bytes

/-! ## Names -/

/-- The character that bytes begin with, and how many of them are its own. -/
def character? : Bytes → Option (CodePoint × Nat)
  | [] => none
  | b :: rest =>
    match continuations? b with
    | none => none
    | some more =>
      match decode ((b :: rest).take (more + 1)) with
      | .ok [c] => some (c, more + 1)
      | _ => none

/-- The text of a name, with escapes for the bytes of no character.  The first
`skip` bytes belong to the character before them. -/
def readNameFrom : (skip : Nat) → Bytes → Text
  | _, [] => []
  | skip + 1, _ :: rest => readNameFrom skip rest
  | 0, b :: rest =>
    match character? (b :: rest) with
    | some (c, length) => c :: readNameFrom (length - 1) rest
    | none => .escape b :: readNameFrom 0 rest

def readName (bytes : Bytes) : Text :=
  readNameFrom 0 bytes

end Utf8

end SchemaLedger
