import Brainfuck.Bytes

/-!
# Identities

The text of a random identity: a UUID of version 4.

## Main Definitions

* `uuid` — the identity with given random bits
-/

namespace Brainfuck

/-- The UUID of version 4 whose 122 free bits are those of a number. -/
def uuid (bits : Nat) : Bytes :=
  hexadecimal 8 (bits / Nat.pow 2 90) ++ text "-" ++ hexadecimal 4 (bits / Nat.pow 2 74) ++
    text "-4" ++ hexadecimal 3 (bits / Nat.pow 2 62) ++ text "-" ++
    hexadecimal 4 (Nat.pow 2 15 + bits / Nat.pow 2 48 % Nat.pow 2 14) ++ text "-" ++
    hexadecimal 12 bits

end Brainfuck
