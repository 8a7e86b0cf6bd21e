/-!
# Bytes as text

Bytes are decoded to characters. Where they are not well formed, the longest run of bytes that could
still have become a character is replaced as a whole, or a single byte if there is no such run.
-/

namespace ShaderVariants.Text

/-- The range of the byte that may follow a first byte, and how many bytes follow the first. -/
def following (first : UInt8) : Option (UInt8 × UInt8 × Nat) :=
  if first < 0x80 then some (0x80, 0xbf, 0)
  else if first < 0xc2 then none
  else if first < 0xe0 then some (0x80, 0xbf, 1)
  else if first = 0xe0 then some (0xa0, 0xbf, 2)
  else if first = 0xed then some (0x80, 0x9f, 2)
  else if first < 0xf0 then some (0x80, 0xbf, 2)
  else if first = 0xf0 then some (0x90, 0xbf, 3)
  else if first < 0xf4 then some (0x80, 0xbf, 3)
  else if first = 0xf4 then some (0x80, 0x8f, 3)
  else none

/-- The bits of a first byte that belong to the character, if `count` bytes follow. -/
def leadingBits (first : UInt8) (count : Nat) : Nat :=
  if count = 0 then first.toNat
  else first.toNat % Nat.pow 2 (6 - count)

/-- The character under way: its bits so far, how many bytes are due, and the range of the next. -/
structure Partial where
  bits : Nat
  due : Nat
  low : UInt8
  high : UInt8

/-- The characters of bytes that continue a character under way; `none` stands for a run of bytes
that is no character. -/
def decodeAfter : Option Partial → List UInt8 → List (Option Char)
  | none, [] => []
  | some _, [] => [none]
  | state, b :: bs =>
    let continued := match state with
      | some p => if p.low ≤ b ∧ b ≤ p.high then some (p.bits * 64 + b.toNat % 64, p.due - 1)
        else none
      | none => none
    match continued with
    | some (bits, 0) => some (Char.ofNat bits) :: decodeAfter none bs
    | some (bits, due) => decodeAfter (some ⟨bits, due, 0x80, 0xbf⟩) bs
    | none =>
      let broken := if state.isSome then [none] else []
      broken ++ match following b with
        | none => none :: decodeAfter none bs
        | some (_, _, 0) => some (Char.ofNat b.toNat) :: decodeAfter none bs
        | some (low, high, due) => decodeAfter (some ⟨leadingBits b due, due, low, high⟩) bs

/-- The characters of bytes; `none` stands for a run of bytes that is no character. -/
def decodeBytes (bytes : List UInt8) : List (Option Char) :=
  decodeAfter none bytes

/-- The text of bytes that are all well formed. -/
def ofBytes? (bytes : List UInt8) : Option String :=
  ((decodeBytes bytes).mapM id).map String.ofList

/-- The text of bytes with the replacement character for what is not well formed. -/
def ofBytesLossy (bytes : List UInt8) : String :=
  String.ofList ((decodeBytes bytes).map (Option.getD · '\ufffd'))

end ShaderVariants.Text
