import AccessPolicy.Text.Newlines
import AccessPolicy.Text.Utf8
import AccessPolicy.Yaml.Cursor

/-!
# Sources

The characters of a file come in pieces, and each piece is looked at as a whole : a piece
with a character that no text may hold, or one that cannot be read because bytes in it are
no UTF-8, is a wall that reading runs into. What stands before the wall is still read, and
may hold another problem that is met first.

The bytes are turned into characters in chunks, so a piece may be unreadable because of
bytes that stand behind it (`Source.fullPieces`). `Source.ofBytes` is the source of a file's
bytes.
-/

namespace AccessPolicy.Yaml

/-- A character that may stand in a text. -/
def isAllowed (c : Char) : Bool :=
  let n := c.toNat
  n = 0x9 || n = 0xA || n = 0xD || (0x20 ≤ n && n ≤ 0x7E) || n = 0x85 ||
    (0xA0 ≤ n && n ≤ 0xD7FF) || (0xE000 ≤ n && n ≤ 0xFFFD) || 0x10000 ≤ n

/-- Characters to be read, and what is met after them if it is not the end. -/
structure Source where
  text : List Char
  wall : Option Problem := none

namespace Source

/-- How many characters a piece has; the first one has twice as many. -/
def pieceLength : Nat := 4096

/-- Where the piece starts that holds the character with this index. -/
def pieceStart (index : Nat) : Nat :=
  if index < 2 * pieceLength then 0 else index / pieceLength * pieceLength

/-- The source of characters that could all be read. -/
def ofChars (cs : List Char) : Source :=
  match cs.findIdx? fun c => !isAllowed c with
  | none => ⟨cs, none⟩
  | some i => ⟨cs.take (pieceStart i), some .malformed⟩

/-- The bytes of a half begin like this. Whether it is one shows at the third byte only. -/
def startsHalf : List UInt8 → Bool
  | first :: second :: _ => first = 0xED && 0xA0 ≤ second && second ≤ 0xBF
  | _ => false

/-- The byte at which a defect shows; none where it shows at the end only. -/
def shownAt? (bytes : List UInt8) (d : Utf8.Defect) : Option Nat :=
  match d.reason with
  | .invalidStart => some d.position
  | .invalidContinuation =>
    some (d.position + if startsHalf (bytes.drop d.position) then 2 else d.length)
  | .unexpectedEnd => none

/-- The characters of bytes up to the first defect. -/
def readable (bytes : List UInt8) : List Char :=
  match Utf8.decode bytes with
  | .ok text => text.toList
  | .error d => ((Utf8.decode (bytes.take d.position)).toOption.getD "").toList

/-- How many characters the first `n` bytes give. A carriage return at their end waits for
what follows it. -/
def readCount (bytes : List UInt8) (n : Nat) : Nat :=
  let cs := readable (bytes.take n)
  (Text.unifyNewlines cs).length - if cs.getLast? = some '\r' then 1 else 0

/-- How many bytes the next chunk has where `missing` characters are wanted and the last
chunk gave `chars` characters for its `bytes` bytes. -/
def chunkLength (bytes chars missing : Nat) : Nat :=
  max 8192 (max missing (bytes * missing / chars))

/-- How many pieces are full before a chunk is read with the byte at `shown`, or the end is
met. The bytes up to `start` were turned into `count` characters, and the last chunk of them
was one of `lastBytes` bytes and `lastChars` characters. The fuel bounds the number of pieces
and chunks. -/
def fullPieces (bytes : List UInt8) (shown : Nat) :
    (fuel start count lastBytes lastChars full : Nat) → Nat
  | 0, _, _, _, _, full => full
  | fuel + 1, start, count, lastBytes, lastChars, full =>
    let missing := (full + 1) * pieceLength - count
    if missing = 0 then fullPieces bytes shown fuel start count lastBytes lastChars (full + 1)
    else
      let stop := min (start + chunkLength lastBytes lastChars missing) bytes.length
      if shown < stop || start = bytes.length then full
      else
        let n := readCount bytes stop
        fullPieces bytes shown fuel stop n (stop - start) (n - count) full

/-- The source of bytes with a defect. -/
def ofBroken (bytes : List UInt8) (d : Utf8.Defect) : Source :=
  let shown := (shownAt? bytes d).getD bytes.length
  let full := fullPieces bytes shown (2 * bytes.length + 1) 0 0 0 0 0
  if full < 2 then ⟨[], some (.fault .badEncoding)⟩
  else
    let s := ofChars ((Text.unifyNewlines (readable bytes)).take (full * pieceLength))
    { s with wall := s.wall.or (some (.fault .badEncoding)) }

/-- The source of a file's bytes. -/
def ofBytes (bytes : List UInt8) : Source :=
  match Utf8.decode bytes with
  | .ok text => ofChars (Text.unifyNewlines text.toList)
  | .error d => ofBroken bytes d

end Source

end AccessPolicy.Yaml
