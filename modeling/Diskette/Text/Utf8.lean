/-!
# UTF-8

Byte strings as text. A byte string is cut into pieces: each is a character, or a malformed piece
that starts like a character and breaks off. Strict reading refuses malformed pieces, lossy reading
puts U+FFFD in the place of each.
-/

namespace Diskette.Text

/-- Whether a byte continues a character. -/
def isContinuation (b : UInt8) : Bool := 0x80 ≤ b ∧ b ≤ 0xBF

/-- Whether `second` may follow `lead` in a character of three bytes: no shorter form exists, and
the character is no surrogate. -/
def secondOfThree (lead second : UInt8) : Bool :=
  if lead = 0xE0 then 0xA0 ≤ second ∧ second ≤ 0xBF
  else if lead = 0xED then 0x80 ≤ second ∧ second ≤ 0x9F
  else isContinuation second

/-- Whether `second` may follow `lead` in a character of four bytes: no shorter form exists, and the
character is at most U+10FFFF. -/
def secondOfFour (lead second : UInt8) : Bool :=
  if lead = 0xF0 then 0x90 ≤ second ∧ second ≤ 0xBF
  else if lead = 0xF4 then 0x80 ≤ second ∧ second ≤ 0x8F
  else isContinuation second

/-- The six bits that a continuation byte adds. -/
def payload (b : UInt8) : Nat := b.toNat % 64

/-- The pieces of a byte string: `none` for a malformed one, which is as long as it can be read as
the start of a character, and at least one byte. -/
def pieces : List UInt8 → List (Option Char)
  | [] => []
  | lead :: rest =>
    if lead < 0x80 then some (Char.ofNat lead.toNat) :: pieces rest
    else if 0xC2 ≤ lead ∧ lead ≤ 0xDF then
      match rest with
      | b1 :: rest1 =>
        if isContinuation b1 then
          some (Char.ofNat (lead.toNat % 32 * 64 + payload b1)) :: pieces rest1
        else none :: pieces (b1 :: rest1)
      | [] => [none]
    else if 0xE0 ≤ lead ∧ lead ≤ 0xEF then
      match rest with
      | b1 :: rest1 =>
        if secondOfThree lead b1 then
          match rest1 with
          | b2 :: rest2 =>
            if isContinuation b2 then
              some (Char.ofNat (lead.toNat % 16 * 4096 + payload b1 * 64 + payload b2)) ::
                pieces rest2
            else none :: pieces (b2 :: rest2)
          | [] => [none]
        else none :: pieces (b1 :: rest1)
      | [] => [none]
    else if 0xF0 ≤ lead ∧ lead ≤ 0xF4 then
      match rest with
      | b1 :: rest1 =>
        if secondOfFour lead b1 then
          match rest1 with
          | b2 :: rest2 =>
            if isContinuation b2 then
              match rest2 with
              | b3 :: rest3 =>
                if isContinuation b3 then
                  some (Char.ofNat (lead.toNat % 8 * 262144 + payload b1 * 4096 +
                    payload b2 * 64 + payload b3)) :: pieces rest3
                else none :: pieces (b3 :: rest3)
              | [] => [none]
            else none :: pieces (b2 :: rest2)
          | [] => [none]
        else none :: pieces (b1 :: rest1)
      | [] => [none]
    else none :: pieces rest
termination_by bytes => bytes.length

/-- The text of a byte string, with U+FFFD for each malformed piece. -/
def decodeLossy (bytes : List UInt8) : String :=
  String.ofList ((pieces bytes).map (·.getD '\uFFFD'))

/-- The text of a byte string without malformed pieces. -/
def decode? (bytes : List UInt8) : Option String :=
  ((pieces bytes).mapM id).map String.ofList

end Diskette.Text
