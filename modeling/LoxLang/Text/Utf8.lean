/-!
# Decoding UTF-8

Bytes are decoded by the table of well-formed byte sequences: the second byte
of a sequence has a range that depends on the first, which rules out overlong
forms, surrogates and numbers beyond the last code point; all later bytes are
plain continuation bytes. A failure names the index of the sequence and how
many of its bytes were well-formed so far, or says that the input ended in the
middle of it.
-/

namespace LoxLang.Text

/-- Why bytes are not text. -/
inductive Utf8Error where
  | invalid (length index : Nat)
  | incomplete (index : Nat)
deriving DecidableEq, Repr

/-- The wording of a decoding error. -/
def Utf8Error.message : Utf8Error → String
  | .invalid length index =>
    "invalid utf-8 sequence of " ++ toString length ++ " bytes from index " ++ toString index
  | .incomplete index => "incomplete utf-8 byte sequence from index " ++ toString index

namespace Utf8

/-- A byte that may stand behind the second of a sequence. -/
def isContinuation (b : UInt8) : Bool := 0x80 ≤ b && b ≤ 0xbf

/-- May `b` be the second byte behind `first` in a sequence of three? -/
def isSecondOfThree (first b : UInt8) : Bool :=
  if first == 0xe0 then 0xa0 ≤ b && b ≤ 0xbf
  else if first == 0xed then 0x80 ≤ b && b ≤ 0x9f
  else isContinuation b

/-- May `b` be the second byte behind `first` in a sequence of four? -/
def isSecondOfFour (first b : UInt8) : Bool :=
  if first == 0xf0 then 0x90 ≤ b && b ≤ 0xbf
  else if first == 0xf4 then 0x80 ≤ b && b ≤ 0x8f
  else isContinuation b

/-- The payload of a continuation byte. -/
def payload (b : UInt8) : Nat := b.toNat % 0x40

/-- The text of bytes, the first of which has the given index. -/
def decodeFrom (index : Nat) : List UInt8 → Except Utf8Error (List Char)
  | [] => .ok []
  | a :: rest =>
    if a < 0x80 then
      (decodeFrom (index + 1) rest).map (Char.ofNat a.toNat :: ·)
    else if 0xc2 ≤ a && a ≤ 0xdf then
      match rest with
      | [] => .error (.incomplete index)
      | b :: rest =>
        if !isContinuation b then .error (.invalid 1 index)
        else (decodeFrom (index + 2) rest).map
          (Char.ofNat (a.toNat % 0x20 * 0x40 + payload b) :: ·)
    else if 0xe0 ≤ a && a ≤ 0xef then
      match rest with
      | [] => .error (.incomplete index)
      | [b] =>
        if !isSecondOfThree a b then .error (.invalid 1 index) else .error (.incomplete index)
      | b :: c :: rest =>
        if !isSecondOfThree a b then .error (.invalid 1 index)
        else if !isContinuation c then .error (.invalid 2 index)
        else (decodeFrom (index + 3) rest).map
          (Char.ofNat ((a.toNat % 0x10 * 0x40 + payload b) * 0x40 + payload c) :: ·)
    else if 0xf0 ≤ a && a ≤ 0xf4 then
      match rest with
      | [] => .error (.incomplete index)
      | [b] =>
        if !isSecondOfFour a b then .error (.invalid 1 index) else .error (.incomplete index)
      | [b, c] =>
        if !isSecondOfFour a b then .error (.invalid 1 index)
        else if !isContinuation c then .error (.invalid 2 index)
        else .error (.incomplete index)
      | b :: c :: d :: rest =>
        if !isSecondOfFour a b then .error (.invalid 1 index)
        else if !isContinuation c then .error (.invalid 2 index)
        else if !isContinuation d then .error (.invalid 3 index)
        else (decodeFrom (index + 4) rest).map
          (Char.ofNat
            (((a.toNat % 0x08 * 0x40 + payload b) * 0x40 + payload c) * 0x40 + payload d) :: ·)
    else .error (.invalid 1 index)

/-- The text of bytes. -/
def decode (bytes : List UInt8) : Except Utf8Error String :=
  (decodeFrom 0 bytes).map String.ofList

example : decode [0x61, 0xc3, 0xa9, 0xe2, 0x82, 0xac, 0xf0, 0x9f, 0x98, 0x80] = .ok "aé€😀" := rfl
example : decode [0x61, 0xed, 0xa0, 0x80] = .error (.invalid 1 1) := rfl
example : decode [0xe2, 0x82, 0x41] = .error (.invalid 2 0) := rfl
example : decode [0x61, 0xf0, 0x9f, 0x98] = .error (.incomplete 1) := rfl

end Utf8

end LoxLang.Text
