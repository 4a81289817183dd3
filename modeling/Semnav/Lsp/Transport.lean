import Semnav.ForStd.BufRead
import Semnav.ForStd.Utf8
import Semnav.Lsp.Proto

/-!
# Content-Length framing

A message on the wire is a block of header lines, a blank line and a JSON body of the length
that a header declares (`src/lsp/transport.rs`).
-/

namespace Semnav.Lsp

open Semnav.ForStd

/-- `MAX_FRAME_SIZE`. -/
def maxFrameSize : Nat := 64 * 1024 * 1024

/-- `serde_json`: printing a message, and parsing a value; an error is its text. -/
structure Serde where
  toVec : Message → Except String (List UInt8)
  fromSlice : List UInt8 → Except String Json

/-- The header of a frame. -/
def frameHeader (length : Nat) : String := "Content-Length: " ++ length.repr ++ "\r\n\r\n"

/-- `write_message`: the bytes that are written. -/
def writeMessage (S : Serde) (msg : Message) : Except String (List UInt8) := do
  let body ← S.toVec msg
  pure (asBytes (frameHeader body.length) ++ body)

/-- The length that a header line declares, if it is a `Content-Length` that parses. -/
def declaredLength (trimmed : List UInt8) : Option Nat := do
  let rest ← stripPrefix (asBytes "Content-Length:") trimmed
  parseUsize (trim ((fromUtf8 rest).getD ""))

/-- Read header lines up to the blank one: the last length declared; `none` at the end of the
    stream.  Each line has a byte, so the stream's length is enough fuel. -/
def readHeaders : Nat → Option Nat → BufReader UInt8 → Option (Option Nat) × BufReader UInt8
  | 0, _, r => (none, r)
  | fuel + 1, contentLength, r =>
    let (line, r') := r.readUntil 10
    if line.isEmpty then (none, r')
    else
      let trimmed := (stripSuffix [13, 10] line).getD line
      if trimmed.isEmpty then (some contentLength, r')
      else readHeaders fuel ((declaredLength trimmed).or contentLength) r'

/-- `read_message`: `none` at the end of the stream, and an error is its text. -/
def readMessage (S : Serde) (r : BufReader UInt8) :
    Except String (Option Json) × BufReader UInt8 :=
  match readHeaders (r.remaining.length + 1) none r with
  | (none, r') => (.ok none, r')
  | (some none, r') => (.error "missing Content-Length header", r')
  | (some (some len), r') =>
    if len > maxFrameSize then (.error ("frame too large: " ++ len.repr ++ " bytes"), r')
    else
      match r'.readExact len with
      | none => (.error "early eof", ⟨[], []⟩)
      | some (buf, r'') =>
        match S.fromSlice buf with
        | .error e => (.error e, r'')
        | .ok value => (.ok (some value), r'')

end Semnav.Lsp
