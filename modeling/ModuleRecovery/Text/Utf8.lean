/-!
# Reading UTF-8 with replacement

Bytes that are not UTF-8 are read as U+FFFD: one for each byte that cannot start
or continue a character, and one for each character that is begun but not
completed.
-/

namespace ModuleRecovery.Text

/-- What follows a leading byte: the bits it gives, and the ranges of the
following bytes. -/
def leadingByte? (byte : Nat) : Option (Nat × List (Nat × Nat)) :=
  let any := (0x80, 0xBF)
  if byte < 0x80 then some (byte, [])
  else if 0xC2 ≤ byte && byte ≤ 0xDF then some (byte - 0xC0, [any])
  else if byte = 0xE0 then some (0, [(0xA0, 0xBF), any])
  else if byte = 0xED then some (0xD, [(0x80, 0x9F), any])
  else if 0xE1 ≤ byte && byte ≤ 0xEF then some (byte - 0xE0, [any, any])
  else if byte = 0xF0 then some (0, [(0x90, 0xBF), any, any])
  else if 0xF1 ≤ byte && byte ≤ 0xF3 then some (byte - 0xF0, [any, any, any])
  else if byte = 0xF4 then some (4, [(0x80, 0x8F), any, any])
  else none

/-- Reads the following bytes of a character: its code point, or nothing if it is
not completed, and the bytes that are left. -/
def followingBytes :
    Nat → List (Nat × Nat) → List UInt8 → Option Nat × List UInt8
  | value, [], bytes => (some value, bytes)
  | _, _ :: _, [] => (none, [])
  | value, (low, high) :: ranges, byte :: bytes =>
    if low ≤ byte.toNat && byte.toNat ≤ high then
      followingBytes (64 * value + (byte.toNat - 0x80)) ranges bytes
    else (none, byte :: bytes)

theorem followingBytes_length_le (value : Nat) (ranges : List (Nat × Nat))
    (bytes : List UInt8) :
    (followingBytes value ranges bytes).2.length ≤ bytes.length := by
  induction ranges generalizing value bytes with
  | nil => simp [followingBytes]
  | cons range ranges ih =>
    cases bytes with
    | nil => simp [followingBytes]
    | cons byte bytes =>
      unfold followingBytes
      split
      · exact Nat.le_succ_of_le (ih _ _)
      · simp

/-- The character that stands for bytes which are none. -/
def replacement : Char := '�'

/-- Reads bytes as UTF-8. -/
def decodeLossy (bytes : List UInt8) : List Char :=
  match bytes with
  | [] => []
  | byte :: rest =>
    match leadingByte? byte.toNat with
    | none => replacement :: decodeLossy rest
    | some (value, ranges) =>
      let outcome := followingBytes value ranges rest
      let c :=
        match outcome.1 with
        | some code => Char.ofNat code
        | none => replacement
      c :: decodeLossy outcome.2
termination_by bytes.length
decreasing_by
  · simp
  · have := followingBytes_length_le value ranges rest
    simp only [List.length_cons]
    omega

end ModuleRecovery.Text
