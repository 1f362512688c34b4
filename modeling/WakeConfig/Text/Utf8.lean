/-!
# Decoding UTF-8 with replacement

Bytes are read from the left. A well-formed sequence gives its character; every maximal piece of
bytes that starts a sequence but cannot be finished, and every byte that cannot start one, gives
one U+FFFD. A byte order mark is a character like any other.
-/

namespace WakeConfig.Text.Utf8

/-- A sequence that has begun: its value so far, how many bytes it still lacks, and the range in
which the next byte must lie. -/
structure Pending where
  value : Nat
  lacking : Nat
  low : Nat
  high : Nat

/-- U+FFFD, which stands for bytes that are no character. -/
def replacement : Char := Char.ofNat 0xFFFD

/-- What a byte means at the start of a sequence: characters that are complete, and the sequence
that it opens. The second byte is bounded so that no value has two spellings, none is a surrogate
and none is above U+10FFFF. -/
def start (b : Nat) : List Char × Option Pending :=
  if b < 0x80 then ([Char.ofNat b], none)
  else if b < 0xC2 then ([replacement], none)
  else if b < 0xE0 then ([], some ⟨b - 0xC0, 1, 0x80, 0xBF⟩)
  else if b < 0xF0 then
    ([], some ⟨b - 0xE0, 2, if b = 0xE0 then 0xA0 else 0x80, if b = 0xED then 0x9F else 0xBF⟩)
  else if b < 0xF5 then
    ([], some ⟨b - 0xF0, 3, if b = 0xF0 then 0x90 else 0x80, if b = 0xF4 then 0x8F else 0xBF⟩)
  else ([replacement], none)

/-- Reads one byte after a sequence that may be open. -/
def step : Option Pending → Nat → List Char × Option Pending
  | none, b => start b
  | some p, b =>
    if p.low ≤ b ∧ b ≤ p.high then
      let value := p.value * 64 + (b - 0x80)
      if p.lacking ≤ 1 then ([Char.ofNat value], none)
      else ([], some ⟨value, p.lacking - 1, 0x80, 0xBF⟩)
    else
      let (chars, next) := start b
      (replacement :: chars, next)

/-- Decodes the bytes that follow a sequence that may be open. -/
def decodeFrom : Option Pending → List UInt8 → List Char
  | none, [] => []
  | some _, [] => [replacement]
  | p, b :: rest => (step p b.toNat).1 ++ decodeFrom (step p b.toNat).2 rest

/-- Decodes bytes. -/
def decode (bytes : List UInt8) : List Char := decodeFrom none bytes

end WakeConfig.Text.Utf8
