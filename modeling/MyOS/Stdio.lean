import Mathlib.Data.List.Basic
import MyOS.Lib.Run

namespace MyOS

/-!
# Input through stdio

The input functions of the C library on one stream: a descriptor that is read
directly, two flags and a slot for one byte that was pushed back.  A call
carries what the kernel and the allocator answer in it.
-/

/-- `size_t` is 64 bits wide. -/
def sizeModulus : Nat := 0x10000000000000000

/-- The kernel takes the count of a `read` and an offset as 32-bit integers. -/
def kernelIntModulus : Nat := 0x100000000

/-- What a `read` finds: it fails, or it gives up to `limit` bytes. -/
inductive ReadAnswer where
  | fails
  | upTo (limit : Nat)

/-- An open descriptor: all that it can give, and how far it has been read. -/
structure InputChannel where
  content : List UInt8
  off : Nat
  /-- It is a regular file, on which `lseek` moves the place of the reads. -/
  isFile : Bool

namespace InputChannel

/-- The bytes that the descriptor gives from here on. -/
def ahead (channel : InputChannel) : List UInt8 :=
  channel.content.drop channel.off

/--
The number of bytes that a `read` of `n` gives.  Where `n` is a positive `int`
it is 0 only at the end.
-/
def readCount (channel : InputChannel) (n limit : Nat) : Nat :=
  if 0 < n % kernelIntModulus ∧ 2 * (n % kernelIntModulus) < kernelIntModulus
  then
    min (max 1 limit) (min n channel.ahead.length)
  else
    min limit (min n channel.ahead.length)

/-- The bytes that a `read` gives. -/
def readBytes (channel : InputChannel) (n limit : Nat) : List UInt8 :=
  channel.ahead.take (channel.readCount n limit)

/-- The descriptor behind them. -/
def skip (channel : InputChannel) (count : Nat) : InputChannel :=
  { channel with off := channel.off + count }

/-- `read(fd, buf, n)`: what it gives and the descriptor after it. -/
def read
    (channel : InputChannel)
    (n : Nat)
    (answer : ReadAnswer) : Option (List UInt8) × InputChannel :=
  match answer with
  | .fails => (none, channel)
  | .upTo limit =>
      (some (channel.readBytes n limit),
        channel.skip (channel.readCount n limit))

/-- Where an offset counts from. -/
def seekBase (channel : InputChannel) (whence : Int) : Option Nat :=
  if whence = 0 then
    some 0
  else if whence = 1 then
    some channel.off
  else if whence = 2 then
    some channel.content.length
  else
    none

/-- The place that an `fseek` asks for. -/
def seekTarget
    (channel : InputChannel)
    (offset whence : Int) : Option Int :=
  (channel.seekBase whence).map fun base => base + offset

/-- `lseek(fd, offset, whence)`, whose offsets are 32 bits wide. -/
def lseek
    (channel : InputChannel)
    (offset whence : Int) : Option InputChannel :=
  (channel.seekTarget offset whence).map fun (target : Int) =>
    if channel.isFile then
      { channel with off := (target % (kernelIntModulus : Int)).toNat }
    else
      channel

end InputChannel

/-- `FILE`, as far as input is concerned. -/
structure InputStream where
  channel : InputChannel
  eof : Bool
  err : Bool
  hasUnget : Bool
  unget : UInt8
  /-- The stream is `stdin`, and the terminal echoes. -/
  echoes : Bool
  echoed : List UInt8

namespace InputStream

/-- The bytes that the stream has left: a pushed-back one comes first. -/
def remaining (s : InputStream) : List UInt8 :=
  (if s.hasUnget then [s.unget] else []) ++ s.channel.ahead

/-- `write(stdout->fd, &ch, 1)` where the stream echoes. -/
def echo (s : InputStream) (ch : UInt8) : InputStream :=
  if s.echoes then { s with echoed := s.echoed ++ [ch] } else s

/-- `fgetc(stream)`; none is `EOF`.  The descriptor is read first. -/
def fgetc
    (s : InputStream)
    (answer : ReadAnswer) : Option UInt8 × InputStream :=
  let (ret, channel) := s.channel.read 1 answer
  if s.hasUnget then
    (some s.unget, { s with channel := channel, hasUnget := false })
  else
    match ret with
    | some (ch :: _) => (some ch, ({ s with channel := channel }).echo ch)
    | some [] => (none, { s with channel := channel, eof := true })
    | none => (none, { s with channel := channel, err := true })

/-- `getc(stream)` -/
def getc
    (s : InputStream)
    (answer : ReadAnswer) : Option UInt8 × InputStream :=
  s.fgetc answer

/-- `ungetc(c, stream)`: the byte that was pushed back, or `EOF`. -/
def ungetc (s : InputStream) (c : Int) : Option UInt8 × InputStream :=
  if c = -1 ∨ s.hasUnget then
    (none, s)
  else
    (some (UInt8.ofNat (c % 256).toNat),
      { s with
        hasUnget := true
        unget := UInt8.ofNat (c % 256).toNat
        eof := false })

/--
`fread(ptr, size, nmemb, stream)`: the bytes that were stored, of which
`length / size` whole elements are returned.
-/
def fread
    (s : InputStream)
    (size nmemb : Nat)
    (answer : ReadAnswer) : List UInt8 × Nat × InputStream :=
  let bytes := size * nmemb % sizeModulus
  if bytes = 0 then
    ([], 0, s)
  else
    let out := if s.hasUnget then [s.unget] else []
    let taken := { s with hasUnget := false }
    if out.length = bytes then
      (out, out.length / size, taken)
    else
      match s.channel.read (bytes - out.length) answer with
      | (none, channel) =>
          (out, 0, { taken with channel := channel, err := true })
      | (some found, channel) =>
          let done := out ++ found
          (done, done.length / size,
            { taken with
              channel := channel
              eof := taken.eof || decide (done.length < bytes) })

/-- The loop of `fgets` with room for `left` more bytes. -/
def fgetsLoop
    (answers : Nat → ReadAnswer) :
    Nat → List UInt8 → InputStream → List UInt8 × InputStream
  | 0, line, s => (line, s)
  | left + 1, line, s =>
      match s.fgetc (answers line.length) with
      | (none, after) => (line, after)
      | (some c, after) =>
          if c = 10 then
            (line ++ [c], after)
          else
            fgetsLoop answers left (line ++ [c]) after

/-- `fgets(s, size, stream)` with a buffer; none is `NULL`. -/
def fgets
    (s : InputStream)
    (size : Int)
    (answers : Nat → ReadAnswer) : Option (List UInt8) × InputStream :=
  if size ≤ 0 then
    (none, s)
  else
    match fgetsLoop answers (size - 1).toNat [] s with
    | ([], after) => (none, after)
    | (line, after) => (some line, after)

/-- How the loop of `getdelim` ends. -/
inductive DelimEnd where
  /-- At `EOF`, or behind the delimiter. -/
  | line (line : List UInt8) (atEof : Bool)
  /-- `realloc` has returned `NULL`. -/
  | noMemory
  deriving Repr, DecidableEq

/-- `realloc(*lineptr, next_size)` returns a block. -/
def reallocs (grows : Nat → Bool) (nextSize : Nat) : Bool :=
  decide (nextSize ≠ 0) && grows nextSize

/-- The loop of `getdelim` with `fuel` more turns; `n` is the buffer's size. -/
def getdelimLoop
    (answers : Nat → ReadAnswer)
    (grows : Nat → Bool)
    (delim : Int) :
    Nat → Nat → List UInt8 → InputStream → Option (DelimEnd × InputStream)
  | 0, _, _, _ => none
  | fuel + 1, n, line, s =>
      match s.fgetc (answers line.length) with
      | (none, after) => some (.line line true, after)
      | (some c, after) =>
          if n ≤ line.length + 1 then
            if reallocs grows (n * 2 % sizeModulus) then
              if (c.toNat : Int) = delim then
                some (.line (line ++ [c]) false, after)
              else
                getdelimLoop answers grows delim fuel (n * 2 % sizeModulus)
                  (line ++ [c]) after
            else
              some (.noMemory, after)
          else if (c.toNat : Int) = delim then
            some (.line (line ++ [c]) false, after)
          else
            getdelimLoop answers grows delim fuel n (line ++ [c]) after

/-- What `getdelim` is given: the caller's buffer and the allocator's answers. -/
structure DelimCall where
  /-- `*lineptr` is `NULL`. -/
  isNull : Bool
  n : Nat
  delim : Int
  answers : Nat → ReadAnswer
  /-- The first `malloc` succeeds. -/
  allocates : Bool
  grows : Nat → Bool

/-- The size of the buffer at the start of the loop. -/
def DelimCall.start (call : DelimCall) : Nat :=
  if call.isNull ∨ call.n = 0 then 128 else call.n

/-- A stream gives no more bytes than it has left. -/
def delimFuel (s : InputStream) : Nat :=
  s.remaining.length + 1

/-- `getdelim(lineptr, n, delim, stream)`; none is -1. -/
def getdelim
    (s : InputStream)
    (call : DelimCall) : Option (List UInt8) × InputStream :=
  if (call.isNull ∨ call.n = 0) ∧ call.allocates = false then
    (none, s)
  else
    match
      getdelimLoop call.answers call.grows call.delim s.delimFuel call.start []
        s with
    | some (.line line atEof, after) =>
        if line = [] ∧ atEof then (none, after) else (some line, after)
    | some (.noMemory, after) => (none, after)
    | none => (none, s)

/-- `fseek(stream, offset, whence)` succeeds, or not. -/
def fseek
    (s : InputStream)
    (offset whence : Int) : Bool × InputStream :=
  match s.channel.lseek offset whence with
  | none => (false, { s with err := true })
  | some channel => (true, { s with channel := channel, eof := false })

end InputStream

/-- A call on the stream, with what is answered to it. -/
inductive StdioCall where
  | fgetc (answer : ReadAnswer)
  | getc (answer : ReadAnswer)
  | ungetc (c : Int)
  | fread (size nmemb : Nat) (answer : ReadAnswer)
  | fgets (size : Int) (answers : Nat → ReadAnswer)
  | getdelim (call : InputStream.DelimCall)
  | fseek (offset whence : Int)

/-- What a call tells its caller. -/
inductive StdioEvent where
  | got (bytes : List UInt8)
  | pushed (byte : UInt8)
  | sought (target : Int)
  deriving Repr, DecidableEq

namespace StdioEvent

/-- The bytes that are returned, if any. -/
def gotByte (byte : Option UInt8) : StdioEvent :=
  .got byte.toList

/-- The bytes that are left behind an event, or none if it cannot happen. -/
def replay
    (content remaining : List UInt8) : StdioEvent → Option (List UInt8)
  | .got bytes =>
      if bytes <+: remaining then
        some (remaining.drop bytes.length)
      else
        none
  | .pushed byte => some (byte :: remaining)
  | .sought target =>
      if 0 ≤ target then some (content.drop target.toNat) else none

/-- The bytes that are left behind a history of events. -/
def replayAll
    (content : List UInt8) :
    List StdioEvent → List UInt8 → Option (List UInt8)
  | [], remaining => some remaining
  | event :: events, remaining =>
      (event.replay content remaining).bind (replayAll content events)

end StdioEvent

namespace InputStream

/-- A call, what it tells its caller and the stream after it. -/
def perform (s : InputStream) : StdioCall → List StdioEvent × InputStream
  | .fgetc answer =>
      let (byte, after) := s.fgetc answer
      ([.gotByte byte], after)
  | .getc answer =>
      let (byte, after) := s.getc answer
      ([.gotByte byte], after)
  | .ungetc c =>
      let (byte, after) := s.ungetc c
      (byte.toList.map .pushed, after)
  | .fread size nmemb answer =>
      let (bytes, elements, after) := s.fread size nmemb answer
      ([.got (bytes.take (elements * size))], after)
  | .fgets size answers =>
      let (line, after) := s.fgets size answers
      ([.got (line.getD [])], after)
  | .getdelim call =>
      let (line, after) := s.getdelim call
      ([.got (line.getD [])], after)
  | .fseek offset whence =>
      let (succeeded, after) := s.fseek offset whence
      (if succeeded then
          ((s.channel.seekTarget offset whence).map .sought).toList
        else
          [],
        after)

/-- A stream that has just been opened. -/
def opened
    (channel : InputChannel)
    (echoes : Bool) : InputStream where
  channel := channel
  eof := false
  err := false
  hasUnget := false
  unget := 0
  echoes := echoes
  echoed := []

end InputStream

/-- A stream with the history of what its calls have told. -/
structure StdioState where
  stream : InputStream
  events : List StdioEvent

namespace StdioState

/-- A call on the stream. -/
def Step (s : StdioState) (call : StdioCall) (after : StdioState) : Prop :=
  after =
    { stream := (s.stream.perform call).2
      events := s.events ++ (s.stream.perform call).1 }

/-- A stream that has just been opened. -/
def opened (channel : InputChannel) (echoes : Bool) : StdioState where
  stream := .opened channel echoes
  events := []

/--
What has been returned, with each byte that was pushed back returned next and
once, are the descriptor's bytes in their order, and the end flag is set only
at the end.
-/
structure LosesNothing
    (channel : InputChannel)
    (s : StdioState) : Prop where
  replays :
    StdioEvent.replayAll channel.content s.events channel.ahead =
      some s.stream.remaining
  ends : s.stream.eof = true → s.stream.remaining = []

/-- A `read` does not drop a byte behind the one that was pushed back. -/
def dropsNothing (s : InputStream) (answer : ReadAnswer) : Bool :=
  match answer with
  | .fails => true
  | .upTo _ => !s.hasUnget || s.channel.ahead.isEmpty

/-- The bytes that an `fread` is about to store. -/
def freadStores
    (s : InputStream)
    (bytes limit : Nat) : Nat :=
  (if s.hasUnget then 1 else 0) +
    s.channel.readCount (bytes - (if s.hasUnget then 1 else 0)) limit

/--
An `fread` does not fail behind a byte that was pushed back, stores whole
elements, and is short only at the end.
-/
def freadCareful
    (s : InputStream)
    (size nmemb : Nat)
    (answer : ReadAnswer) : Prop :=
  let bytes := size * nmemb % sizeModulus
  bytes = 0 ∨
    if s.hasUnget ∧ bytes = 1 then
      size = 1
    else
      match answer with
      | .fails => s.hasUnget = false
      | .upTo limit =>
          freadStores s bytes limit % size = 0 ∧
            (freadStores s bytes limit < bytes →
              s.channel.ahead.length ≤
                s.channel.readCount
                  (bytes - (if s.hasUnget then 1 else 0)) limit)

/-- The bytes that `getdelim` takes, where the read of each one succeeds. -/
def fetched
    (answers : Nat → ReadAnswer)
    (delim : Int)
    (hasUnget : Bool) :
    Nat → List UInt8 → List UInt8
  | _, [] => []
  | i, c :: rest =>
      match hasUnget, answers i with
      | false, .fails => []
      | _, _ =>
          if (c.toNat : Int) = delim then
            [c]
          else
            c :: fetched answers delim false (i + 1) rest

/-- Every `realloc` for `count` more bytes in a buffer of `n` succeeds. -/
def growsFor (grows : Nat → Bool) : Nat → Nat → Nat → Bool
  | 0, _, _ => true
  | count + 1, n, length =>
      if n ≤ length + 1 then
        InputStream.reallocs grows (n * 2 % sizeModulus) &&
          growsFor grows count (n * 2 % sizeModulus) (length + 1)
      else
        growsFor grows count n (length + 1)

/-- A `getdelim` drops nothing, and its buffer can grow as far as it needs. -/
def getdelimCareful
    (s : InputStream)
    (call : InputStream.DelimCall) : Prop :=
  ((call.isNull ∨ call.n = 0) ∧ call.allocates = false) ∨
    dropsNothing s (call.answers 0) = true ∧
      growsFor call.grows
        (fetched call.answers call.delim s.hasUnget 0 s.remaining).length
        call.start 0 = true

/-- The condition on a call: the branches that lose bytes are not taken. -/
def Careful (s : StdioState) : StdioCall → Prop
  | .fgetc answer => dropsNothing s.stream answer = true
  | .getc answer => dropsNothing s.stream answer = true
  | .ungetc _ => True
  | .fread size nmemb answer => freadCareful s.stream size nmemb answer
  | .fgets size answers =>
      size ≤ 1 ∨ dropsNothing s.stream (answers 0) = true
  | .getdelim call => getdelimCareful s.stream call
  | .fseek offset whence =>
      ∀ target, s.stream.channel.seekTarget offset whence = some target →
        s.stream.hasUnget = false ∧ s.stream.channel.isFile = true ∧
          0 ≤ target ∧ target < kernelIntModulus

end StdioState

end MyOS
