import PacketFence.Foundations.Buffer
import PacketFence.Udf.Lookup

/-!
# The logging function of the database

Each matching configuration formats the arguments as a CEF record in a buffer of
1024 bytes and wraps the record into a syslog message in another one. `buf` is
the position of a buffer, `end` its capacity.

`CHECK` compares `buf - c` with the end where `buf + c` is meant, and a single
byte is written without any check.
-/

namespace PacketFence.Udf

open Foundations

structure SyslogHeader where
  facility : Int32
  priority : Int32
  pid : Int32
  host : Bytes
  app : Bytes

structure CefHeader where
  deviceVendor : Bytes
  deviceProduct : Bytes
  deviceVersion : Bytes
  deviceEventClassId : Bytes
  severity : Int32
  version : Int32

def decimal (number : Int32) : Bytes :=
  let digits := (Nat.toDigits 10 number.toInt.natAbs).map ascii
  if number.toInt < 0 then ascii '-' :: digits else digits

/-- `CHECK(c)`: whether it jumps to `done`. -/
def checkFails (buffer : Buffer) (finish count : Nat) : Bool :=
  (finish : Int) ≤ (buffer.position : Int) - count

def appendStr (buffer : Buffer) (text : Bytes) (length : Int) : Except Fault Buffer := do
  let leftOver ← buffer.leftOver
  let toCopy := if leftOver < length then leftOver else length
  buffer.memcpy text toCopy

def appendInt (buffer : Buffer) (number : Int32) : Except Fault Buffer := do
  let size ← buffer.size
  return buffer.snprintf size (decimal number)

/-- The loop over a value: it stops at the end of the buffer, and `escape` says
what is written for a byte. -/
def escapeLoop (escape : UInt8 → Bytes) (finish : Nat) :
    Buffer → Bytes → Except Fault Buffer
  | buffer, [] => .ok buffer
  | buffer, byte :: rest =>
    if buffer.position < finish then
      if 2 ≤ (escape byte).length ∧ checkFails buffer finish 2 then
        .ok buffer
      else do
        let next ← buffer.putAll (escape byte)
        escapeLoop escape finish next rest
    else
      .ok buffer

/-- A helper, which takes a length as an `int`, and the `buf +=` of its callers. -/
def formatEscaped (escape : UInt8 → Bytes) (buffer : Buffer) (value : Bytes) :
    Except Fault Buffer := do
  let bufLen ← buffer.size
  let length := toInt value.length
  let written ← escapeLoop escape (buffer.position + bufLen) buffer (value.take length.toNat)
  let returned ← written.returned buffer.position bufLen
  return written.advance buffer.position returned

def cefValueEscape (byte : UInt8) : Bytes :=
  if byte = ascii '\n' then
    [ascii '\\', ascii 'n']
  else if byte = ascii '\r' then
    [ascii '\\', ascii 'r']
  else if byte = ascii '\\' ∨ byte = ascii '=' then
    [ascii '\\', byte]
  else
    [byte]

def cefHeaderEscape (byte : UInt8) : Bytes :=
  if byte = ascii '\\' ∨ byte = ascii '|' then
    [ascii '\\', byte]
  else
    [byte]

def formatCefValue : Buffer → Bytes → Except Fault Buffer :=
  formatEscaped cefValueEscape

def formatCefHeader : Buffer → Bytes → Except Fault Buffer :=
  formatEscaped cefHeaderEscape

/-- A blank in front of every pair but the first. -/
def formatSeparator (first : Bool) (buffer : Buffer) : Except Fault Buffer :=
  if first then .ok buffer else buffer.put (ascii ' ')

/-- The loop over pairs of arguments; of an odd number the last is followed by a
read behind the list. -/
def formatArguments (first : Bool) : Buffer → List Bytes → Except Fault Buffer
  | buffer, [] => .ok buffer
  | buffer, key :: rest => do
      let buffer ← formatSeparator first buffer
      let buffer ← formatCefValue buffer key
      let buffer ← buffer.put (ascii '=')
      match rest with
      | [] => .error .read
      | value :: rest => do
          let buffer ← formatCefValue buffer value
          formatArguments false buffer rest

def formatCefHeaders : Buffer → List Bytes → Except Fault Buffer
  | buffer, [] => .ok buffer
  | buffer, field :: rest => do
      let buffer ← formatCefHeader buffer field
      let buffer ← buffer.put (ascii '|')
      formatCefHeaders buffer rest

def formatCef (header : CefHeader) (cells name : Bytes) (arguments : List Bytes) :
    Except Fault (Buffer × Int) := do
  let buffer : Buffer := ⟨cells, 0⟩
  let buffer ← appendStr buffer ("CEF:".toList.map ascii) 4
  let buffer ← appendInt buffer header.version
  let buffer ← buffer.put (ascii '|')
  let buffer ← formatCefHeaders buffer
    [header.deviceVendor, header.deviceProduct, header.deviceVersion,
      header.deviceEventClassId, name]
  let buffer ← appendInt buffer header.severity
  let buffer ← buffer.put (ascii '|')
  let buffer ← formatArguments true buffer arguments
  let length ← buffer.returned 0 cells.length
  return (buffer, length)

def formatPid (buffer : Buffer) (pid : Int32) : Except Fault Buffer :=
  if 0 < pid.toInt then do
    let buffer ← buffer.put (ascii '[')
    let buffer ← appendInt buffer pid
    buffer.put (ascii ']')
  else
    .ok buffer

def formatSyslogMsg (header : SyslogHeader) (cells timestamp message : Bytes)
    (msgLength : Int) : Except Fault (Buffer × Int) := do
  let buffer : Buffer := ⟨cells, 0⟩
  if checkFails buffer cells.length 5 then
    let length ← buffer.returned 0 cells.length
    return (buffer, length)
  else
    let buffer ← buffer.put (ascii '<')
    let buffer ← appendInt buffer ((header.facility <<< 3) ||| header.priority)
    let buffer ← buffer.put (ascii '>')
    let buffer ← appendStr buffer timestamp timestamp.length
    let buffer ← buffer.put (ascii ' ')
    let buffer ← appendStr buffer header.host header.host.length
    let buffer ← buffer.put (ascii ' ')
    let buffer ← appendStr buffer header.app header.app.length
    let buffer ← formatPid buffer header.pid
    let buffer ← buffer.put (ascii ':')
    let buffer ← buffer.put (ascii ' ')
    let buffer ← appendStr buffer message msgLength
    let length ← buffer.returned 0 cells.length
    return (buffer, length)

structure Configuration where
  name : Bytes
  cefHeader : CefHeader
  syslogHeader : SyslogHeader

def bufferSize : Nat := 1024

/-- The messages that are sent for a call with a namespace and its arguments. For
`format_cef` the namespace ends with its first zero. -/
def pfLogger : List Configuration → Bytes → List Bytes → Except Fault (List Bytes)
  | [], _, _ => .ok []
  | configuration :: rest, name, arguments => do
      if strncmp name configuration.name = .eq then
        let empty := List.replicate bufferSize (0 : UInt8)
        let (cef, cefLength) ←
          formatCef configuration.cefHeader empty (name.takeWhile (· ≠ 0)) arguments
        let (syslog, syslogLength) ←
          formatSyslogMsg configuration.syslogHeader empty [] cef.cells cefLength
        let sent ← pfLogger rest name arguments
        return syslog.cells.take syslogLength.toNat :: sent
      else
        pfLogger rest name arguments

end PacketFence.Udf
