import RoutePattern.Text

namespace RoutePattern

namespace Utf8

/-- A character under way: its bits so far, how many bytes are missing, and the range of the next. -/
structure Pending where
  bits : Nat
  missing : Nat
  low : Nat
  high : Nat

/-- What a leading byte begins: a character of its own, a longer one, or nothing. -/
def start (byte : Nat) : Sum Char Pending :=
  if byte < 0x80 then .inl (Char.ofNat byte)
  else if byte < 0xC2 then .inl '\uFFFD'
  else if byte < 0xE0 then .inr ⟨byte - 0xC0, 1, 0x80, 0xBF⟩
  else if byte = 0xE0 then .inr ⟨0, 2, 0xA0, 0xBF⟩
  else if byte = 0xED then .inr ⟨0xD, 2, 0x80, 0x9F⟩
  else if byte < 0xF0 then .inr ⟨byte - 0xE0, 2, 0x80, 0xBF⟩
  else if byte = 0xF0 then .inr ⟨0, 3, 0x90, 0xBF⟩
  else if byte < 0xF4 then .inr ⟨byte - 0xF0, 3, 0x80, 0xBF⟩
  else if byte = 0xF4 then .inr ⟨4, 3, 0x80, 0x8F⟩
  else .inl '\uFFFD'

def begins (byte : Nat) : Text × Option Pending :=
  match start byte with
  | .inl c => ([c], none)
  | .inr p => ([], some p)

def step (pending : Option Pending) (byte : Nat) : Text × Option Pending :=
  match pending with
  | none => begins byte
  | some p =>
    if p.low ≤ byte && byte ≤ p.high then
      let bits := p.bits * 64 + (byte - 0x80)
      if p.missing = 1 then ([Char.ofNat bits], none)
      else ([], some ⟨bits, p.missing - 1, 0x80, 0xBF⟩)
    else
      let (text, next) := begins byte
      ('\uFFFD' :: text, next)

/-- Decodes bytes; each longest stretch that begins a character and does not end it gives one
replacement character. -/
def decode (pending : Option Pending) : List Nat → Text
  | [] => if pending.isSome then ['\uFFFD'] else []
  | byte :: rest =>
    let (text, next) := step pending byte
    text ++ decode next rest

def encodeChar (c : Char) : List Nat :=
  let n := c.toNat
  if n < 0x80 then [n]
  else if n < 0x800 then [0xC0 + n / 64, 0x80 + n % 64]
  else if n < 0x10000 then [0xE0 + n / 4096, 0x80 + n / 64 % 64, 0x80 + n % 64]
  else [0xF0 + n / 262144, 0x80 + n / 4096 % 64, 0x80 + n / 64 % 64, 0x80 + n % 64]

def encode (text : Text) : List Nat := text.flatMap encodeChar

end Utf8

end RoutePattern
