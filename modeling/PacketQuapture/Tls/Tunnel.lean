import PacketQuapture.Tls.Hello

/-! What the bytes before the first TLS record are: a SOCKS or HTTP CONNECT exchange, or the
plaintext part of a STARTTLS upgrade, with no byte left over.
Strings are byte lists; a position past the end, which the source never uses, raises.
-/

namespace PacketQuapture.Tls

open Library Text

/-! ### Strings -/

def crlf : List UInt8 := [13, 10]

/-- `std::string::find`: the first position from `pos` on where `needle` occurs. -/
def findText (text needle : List UInt8) (pos : Nat) : Option Nat :=
  (List.range' pos (text.length + 1 - pos)).find? fun index => needle.isPrefixOf (text.drop index)

/-- The first position from `pos` on whose byte passes the test. -/
def findByte (test : UInt8 → Bool) (text : List UInt8) (pos : Nat) : Option Nat :=
  (List.range' pos (text.length - pos)).find? fun index => (text[index]?.map test).getD false

/-- The last position whose byte passes the test. -/
def findLastByte (test : UInt8 → Bool) (text : List UInt8) : Option Nat :=
  (List.range text.length).reverse.find? fun index => (text[index]?.map test).getD false

/-- `std::string::substr`, which throws when it starts past the end. -/
def substr (text : List UInt8) (pos count : Nat) : Except TextFailure (List UInt8) :=
  if pos ≤ text.length then .ok ((text.drop pos).take count) else .error .outOfRange

def isDigit (byte : UInt8) : Bool :=
  48 ≤ byte && byte ≤ 57

def lower (byte : UInt8) : UInt8 :=
  if 65 ≤ byte ∧ byte ≤ 90 then byte + 32 else byte

def upper (text : List UInt8) : List UInt8 :=
  text.map fun byte => if 97 ≤ byte ∧ byte ≤ 122 then byte - 32 else byte

/-- `std::stoul` and `std::stoi` of at most nine digits. -/
def parseNumber (text : List UInt8) : Except TextFailure Nat :=
  if text ≠ [] ∧ text.all isDigit ∧ text.length ≤ 9 then
    .ok (text.foldl (fun value byte => value * 10 + (byte - 48).toNat) 0)
  else
    .error .invalidArgument

/-! ### SOCKS -/

/-- `host:port`. -/
def hostPort (host : List UInt8) (port : UInt16) : List UInt8 :=
  host ++ ascii ":" ++ decimal port.toNat

/-- The host a SOCKS address of a type names, and the reader past it. -/
def socksHost (reader : TlsReader) (type : UInt8) : Option (List UInt8) × TlsReader :=
  if type = 1 then
    let address := reader.take 4
    (address.1.map formatIp, address.2)
  else if type = 4 then
    let address := reader.take 16
    (address.1.map fun bytes => ascii "[" ++ formatIp bytes ++ ascii "]", address.2)
  else if type = 3 then
    let length := reader.length 1
    if length.2.overrun ∨ length.1 = 0 then (none, length.2)
    else
      let name := length.2.take length.1
      (name.1.map escapeTlsText, name.2)
  else
    (none, reader)

/-- A SOCKS address of a type and the port after it, as `host:port`. -/
def socksAddress (reader : TlsReader) (type : UInt8) : Option (List UInt8) × TlsReader :=
  let host := socksHost reader type
  match host.1 with
  | none => (none, host.2)
  | some name =>
    let port := host.2.u16
    if port.2.overrun then (none, port.2) else (some (hostPort name port.1), port.2)

/-- A NUL-terminated field; the terminator is consumed. -/
def socksString : Nat → TlsReader → List UInt8 → Option (List UInt8) × TlsReader
  | fuel + 1, reader, out =>
    if 0 < reader.remaining then
      let byte := reader.u8
      if byte.1 = 0 then (some out, byte.2) else socksString fuel byte.2 (out ++ [byte.1])
    else
      (none, reader)
  | 0, reader, _ => (none, reader)

/-- A CONNECT request or a reply up to its address: three fixed bytes, then the address. -/
def socks5Tail (reader : TlsReader) (command : UInt8) : Option (List UInt8) :=
  let version := reader.u8
  let second := version.2.u8
  let reserved := second.2.u8
  if version.1 ≠ 5 ∨ second.1 ≠ command ∨ reserved.1 ≠ 0 ∨ reserved.2.overrun then none
  else
    let type := reserved.2.u8
    let address := socksAddress type.2 type.1
    if address.2.remaining ≠ 0 then none else address.1

/-- The username and password request, if one follows; `none` when it is broken. -/
def socks5Login (reader : TlsReader) (methods : List UInt8) : Option TlsReader :=
  if 0 < reader.remaining ∧ reader.u8.1 = 1 ∧ 2 ∈ methods then
    let user := reader.u8.2.length 1
    if user.2.overrun ∨ user.1 = 0 then none
    else
      let named := user.2.skip user.1
      if ¬ named.1 then none
      else
        let password := named.2.length 1
        if password.2.overrun ∨ password.1 = 0 then none
        else
          let entered := password.2.skip password.1
          if entered.1 then some entered.2 else none
  else
    some reader

/-- The destination of a SOCKS5 client exchange. -/
def socks5Client (data : List UInt8) : Option (List UInt8) :=
  let count := ({ rest := data } : TlsReader).u8.2.length 1
  if count.1 = 0 then none
  else
    let methods := count.2.take count.1
    methods.1.bind fun offered =>
      (socks5Login methods.2 offered).bind fun reader => socks5Tail reader 1

/-- The kind and destination of a SOCKS4 request; an address of 0.0.0.x names a host after it. -/
def socks4Client (data : List UInt8) : Option (Tunnel × List UInt8) :=
  let port := ({ rest := data.drop 2 } : TlsReader).u16
  let address := port.2.take 4
  address.1.bind fun ip =>
    let user := socksString (address.2.remaining + 1) address.2 []
    user.1.bind fun _ =>
      if ip.take 3 = [0, 0, 0] ∧ ip.getD 3 0 ≠ 0 then
        let host := socksString (user.2.remaining + 1) user.2 []
        host.1.bind fun name =>
          if name = [] ∨ host.2.remaining ≠ 0 then none
          else some (.socks4a, hostPort (escapeTlsText name) port.1)
      else if user.2.remaining ≠ 0 then
        none
      else
        some (.socks4, hostPort (formatIp ip) port.1)

/-- Whether a SOCKS5 server's method choice, status and reply fill the prefix. -/
def socks5Server (data : List UInt8) : Bool :=
  let method := ({ rest := data } : TlsReader).u8.2.u8
  if method.1 ≠ 0 ∧ method.1 ≠ 2 then false
  else if method.1 = 2 then
    let version := method.2.u8
    let status := version.2.u8
    if version.1 ≠ 1 ∨ status.1 ≠ 0 then false else (socks5Tail status.2 0).isSome
  else
    (socks5Tail method.2 0).isSome

/-! ### HTTP CONNECT -/

/-- A message head: its first line, what it says of its body, and where it ends. -/
structure HttpHead where
  firstLine : List UInt8
  contentLength : Nat := 0
  chunked : Bool := false
  next : Nat

/-- The value of a Content-Length header: digits between optional blanks, at most nine. -/
def contentLength (value : List UInt8) : Except TextFailure (Option Nat) :=
  let blank := fun byte : UInt8 => byte = 32 || byte = 9
  match findByte (fun byte => !blank byte) value 0, findLastByte (fun byte => !blank byte) value with
  | some first, some last =>
    -- a byte that is no digit before the value's end
    if ((findByte (fun byte => !isDigit byte) value first).map fun other =>
          decide (other ≤ last)).getD false
        ∨ 9 ≤ last - first then
      .ok none
    else do
      let text ← substr value first (last - first + 1)
      let length ← parseNumber text
      return some length
  | _, _ => .ok none

/-- The header lines from `line` to the blank one at `stop`; `none` for a broken length. -/
def httpHeaders (text : List UInt8) (stop : Nat)
    : Nat → Nat → HttpHead → Except TextFailure (Option HttpHead)
  | 0, _, _ => .error .outOfFuel
  | fuel + 1, line, head =>
    if line < stop + 2 then
      match findText text crlf line with
      | none => .error .outOfRange
      | some next => do
        let raw ← substr text line (next - line)
        let header := raw.map lower
        if (ascii "content-length:").isPrefixOf header then do
          let value ← substr header 15 header.length
          let length ← contentLength value
          match length with
          | none => return none
          | some contentLength =>
            httpHeaders text stop fuel (next + 2) { head with contentLength }
        else if (ascii "transfer-encoding:").isPrefixOf header
            ∧ (findText header (ascii "chunked") 0).isSome then
          httpHeaders text stop fuel (next + 2) { head with chunked := true }
        else
          httpHeaders text stop fuel (next + 2) head
    else
      .ok (some head)

/-- One message head from `pos`, which ends at its blank line. -/
def nextHttpHead (text : List UInt8) (pos : Nat) : Except TextFailure (Option HttpHead) :=
  match findText text (crlf ++ crlf) pos with
  | none => .ok none
  | some stop =>
    match findText text crlf pos with
    | none => .error .outOfRange
    | some lineEnd => do
      let firstLine ← substr text pos (lineEnd - pos)
      httpHeaders text stop (text.length + 1) (lineEnd + 2) { firstLine, next := stop + 4 }

/-- The target of a CONNECT request line; empty if it is not one. -/
def connectTarget (line : List UInt8) : Except TextFailure (List UInt8) :=
  if (ascii "CONNECT ").isPrefixOf line then
    match findText line (ascii " ") 8 with
    | none => .ok []
    | some space =>
      if space = 8 then .ok []
      else do
        let rest ← substr line space line.length
        if rest = ascii " HTTP/1.0" ∨ rest = ascii " HTTP/1.1" then substr line 8 (space - 8)
        else return []
  else
    .ok []

/-- The status code of a status line; 0 if it is not one. -/
def statusCode (line : List UInt8) : Except TextFailure Nat :=
  if line.length < 12
      ∨ (¬ (ascii "HTTP/1.0 ").isPrefixOf line ∧ ¬ (ascii "HTTP/1.1 ").isPrefixOf line) then
    .ok 0
  else do
    let code ← substr line 9 3
    if code.all isDigit ∧ (12 < line.length → line.getD 12 0 = 32) then parseNumber code
    else return 0

/-- One or more CONNECT requests to one target. -/
def httpClientPrefix (text : List UInt8)
    : Nat → Nat → List UInt8 → Except TextFailure (Option (List UInt8))
  | 0, _, _ => .error .outOfFuel
  | fuel + 1, pos, target =>
    if pos < text.length then do
      let head ← nextHttpHead text pos
      match head with
      | none => return none
      | some head =>
        if head.contentLength ≠ 0 ∨ head.chunked then return none
        else
          let request ← connectTarget head.firstLine
          if request = [] ∨ (target ≠ [] ∧ request ≠ target) then return none
          else httpClientPrefix text fuel head.next request
    else if target = [] then
      .ok none
    else
      .ok (some target)

/-- Refusals with framed bodies, then the 2xx that opens the tunnel, with nothing after it. -/
def httpServerPrefix (text : List UInt8) : Nat → Nat → Except TextFailure Bool
  | 0, _ => .error .outOfFuel
  | fuel + 1, pos =>
    if pos < text.length then do
      let head ← nextHttpHead text pos
      match head with
      | none => return false
      | some head =>
        let status ← statusCode head.firstLine
        if status = 0 then return false
        else if status / 100 = 2 then return head.next = text.length
        else if head.chunked ∨ text.length - head.next < head.contentLength then return false
        else httpServerPrefix text fuel (head.next + head.contentLength)
    else
      .ok false

/-! ### STARTTLS -/

/-- The lines from `pos` on, each ended by CRLF and holding no other CR or LF. -/
def linesFrom (text : List UInt8)
    : Nat → Nat → List (List UInt8) → Except TextFailure (Option (List (List UInt8)))
  | 0, _, _ => .error .outOfFuel
  | fuel + 1, pos, lines =>
    if pos < text.length then
      match findText text crlf pos with
      | none => .ok none
      | some stop => do
        let line ← substr text pos (stop - pos)
        if line.any fun byte => byte = 13 || byte = 10 then return none
        else linesFrom text fuel (stop + 2) (lines ++ [line])
    else if lines = [] then
      .ok none
    else
      .ok (some lines)

def crlfLines (text : List UInt8) : Except TextFailure (Option (List (List UInt8))) :=
  linesFrom text (text.length + 1) 0 []

/-- Whether a line is this word, alone or followed by a space. -/
def startsWord (text word : List UInt8) : Bool :=
  word.isPrefixOf text && (text.length = word.length || text[word.length]? = some 32)

/-- Whether an upper-cased line is this command, alone or followed by a space and arguments. -/
def command (line : List UInt8) (verb : String) : Bool :=
  startsWord line (ascii verb)

def anyCommand (line : List UInt8) (verbs : List String) : Bool :=
  verbs.any (command line)

def popStatus (line : List UInt8) (status : String) : Bool :=
  startsWord line (ascii status)

/-- Three digits, alone or followed by a space or a hyphen. -/
def replyCode (text : List UInt8) : Bool :=
  3 ≤ text.length && (text.take 3).all isDigit
    && (text.length = 3 || text[3]? = some 32 || text[3]? = some 45)

/-- The lines after the one that closes a multi-line reply. -/
def closeReply (smtp : Bool) (code : List UInt8)
    : List (List UInt8) → Option (List (List UInt8))
  | [] => none
  | text :: rest =>
    let same := text.take 3 = code
    if same ∧ (text.length = 3 ∨ text[3]? = some 32) then some rest
    else if smtp ∧ (¬ same ∨ text.length < 4 ∨ text[3]? ≠ some 45) then none
    else closeReply smtp code rest

/-- The codes of SMTP or FTP replies; `fuel` bounds the lines. -/
def replyCodes (smtp : Bool)
    : Nat → List (List UInt8) → List Nat → Except TextFailure (Option (List Nat))
  | _, [], codes => .ok (some codes)
  | 0, _ :: _, _ => .error .outOfFuel
  | fuel + 1, text :: rest, codes =>
    if ¬ replyCode text then .ok none
    else do
      let digits ← substr text 0 3
      let code ← parseNumber digits
      if 3 < text.length ∧ text[3]? = some 45 then
        match closeReply smtp digits rest with
        | none => return none
        | some after => replyCodes smtp fuel after (codes ++ [code])
      else
        replyCodes smtp fuel rest (codes ++ [code])

/-- An IMAP line's tag and its upper-cased rest. -/
def imapLine (line : List UInt8) : Except TextFailure (Option (List UInt8 × List UInt8)) :=
  match findText line (ascii " ") 0 with
  | none => .ok none
  | some space =>
    let special := findByte (fun byte => (ascii "+()\x7b%\"\\").contains byte) line 0
    if space = 0 ∨ (special.map fun index => decide (index < space)).getD false then .ok none
    else do
      let tag ← substr line 0 space
      let rest ← substr line (space + 1) line.length
      return some (tag, upper rest)

/-- Whether every line is a tagged command an IMAP client sends before its STARTTLS, the last. -/
def imapClient : List (List UInt8) → Except TextFailure Bool
  | [] => .ok true
  | line :: rest => do
    let read ← imapLine line
    match read with
    | none => return false
    | some (tag, words) =>
      if tag = ascii "*" then return false
      else if rest = [] then return words = ascii "STARTTLS"
      else if anyCommand words ["CAPABILITY", "NOOP"] then imapClient rest
      else return false

def authCommands : List String := ["AUTH TLS", "AUTH SSL", "AUTH TLS-C", "AUTH TLS-P"]

/-- The protocol of a plaintext client exchange that STARTTLS ends. -/
def startTlsClient (text : List UInt8) : Except TextFailure (Option Tunnel) := do
  let read ← crlfLines text
  match read with
  | none => return none
  | some lines =>
    let words := lines.map upper
    match words.getLast?, words.head? with
    | some last, some first =>
      let before := fun verbs => words.dropLast.all fun line => anyCommand line verbs
      if last = ascii "STARTTLS" then
        return if 2 ≤ words.length ∧ anyCommand first ["EHLO", "HELO"]
            ∧ before ["EHLO", "HELO", "NOOP", "RSET"] then some .smtp else none
      else if last = ascii "STLS" then
        return if before ["CAPA"] then some .pop3 else none
      else if last ∈ authCommands.map ascii then
        return if words.dropLast.all fun line =>
            anyCommand line ["FEAT", "SYST", "NOOP"] || line ∈ authCommands.map ascii
          then some .ftp else none
      else
        let imap ← imapClient lines
        return if imap then some .imap else none
    | _, _ => .error .outOfRange

/-- Whether the lines after the greeting are POP3 replies up to the last line. -/
def popReplies (lines : List (List UInt8)) : Nat → Nat → Except TextFailure Bool
  | 0, _ => .error .outOfFuel
  | fuel + 1, index =>
    if index + 1 < lines.length then
      match lines[index]?, lines[index + 1]? with
      | some line, some following =>
        if ¬ popStatus line "+OK" ∧ ¬ popStatus line "-ERR" then .ok false
        else if popStatus line "+OK" ∧ ¬ popStatus following "+OK"
            ∧ ¬ popStatus following "-ERR" then
          -- a multi-line reply: a lone dot ends its body
          let body := (lines.drop (index + 1)).takeWhile fun line => line ≠ ascii "."
          let stop := index + 1 + body.length
          if stop < lines.length then popReplies lines fuel (stop + 1) else .ok false
        else
          popReplies lines fuel (index + 1)
      | _, _ => .error .outOfRange
    else
      .ok true

/-- Whether the lines after the greeting are IMAP replies, the last a tagged OK. -/
def imapServer : List (List UInt8) → Except TextFailure Bool
  | [] => .ok true
  | line :: rest => do
    let read ← imapLine line
    match read with
    | none => return false
    | some (tag, words) =>
      if rest = [] then
        return tag ≠ ascii "*" ∧ command words "OK"
      else if tag = ascii "*" then
        if anyCommand words ["CAPABILITY", "OK"] then imapServer rest else return false
      else if anyCommand words ["OK", "NO", "BAD"] then
        imapServer rest
      else
        return false

/-- The codes between the first and the last. -/
def inner (codes : List Nat) : List Nat :=
  codes.tail.dropLast

def smtpCodes (codes : List Nat) : Bool :=
  3 ≤ codes.length && codes.head? = some 220 && codes.getLast? = some 220
    && (inner codes).all (fun code => code = 250 || code / 100 = 5) && (inner codes).contains 250

def ftpCodes (codes : List Nat) : Bool :=
  2 ≤ codes.length && codes.head? = some 220 && codes.getLast? = some 234
    && (inner codes).all fun code => code ≠ 234 && (code / 100 = 2 || code / 100 = 5)

/-- The protocol of the server side of the same exchanges, ended by the reply that accepts
STARTTLS.
-/
def startTlsServer (text : List UInt8) : Except TextFailure (Option Tunnel) := do
  let read ← crlfLines text
  match read with
  | none => return none
  | some lines =>
    let smtp ← replyCodes true lines.length lines []
    if (smtp.map smtpCodes).getD false then return some .smtp
    else
      let ftp ← replyCodes false lines.length lines []
      if (ftp.map ftpCodes).getD false then return some .ftp
      else
        match lines.head?, lines.getLast? with
        | some first, some last =>
          if popStatus first "+OK" then
            if lines.length < 2 ∨ ¬ popStatus last "+OK" then return none
            else
              let pop ← popReplies lines (lines.length + 1) 1
              return if pop then some .pop3 else none
          else if lines.length < 2 then
            return none
          else
            let greeting ← imapLine first
            match greeting with
            | none => return none
            | some (tag, words) =>
              if tag ≠ ascii "*" ∨ ¬ command words "OK" then return none
              else
                let imap ← imapServer lines.tail
                return if imap then some .imap else none
        | _, _ => .error .outOfRange

/-! ### Classification -/

/-- The tunnel a prefix parsed as and the destination the client asked for. -/
structure PrefixClass where
  tunnel : Option Tunnel := none
  destination : List UInt8 := []
deriving DecidableEq, Repr

/-- The client side of a tunnel before its ClientHello. -/
def classifyClientPrefix (data : List UInt8) : Except TextFailure PrefixClass :=
  if 2 ≤ data.length ∧ data.getD 0 0 = 5 then
    match socks5Client data with
    | some destination => .ok { tunnel := some .socks5, destination }
    | none => .ok {}
  else if 9 ≤ data.length ∧ data.getD 0 0 = 4 ∧ data.getD 1 0 = 1 then
    match socks4Client data with
    | some (tunnel, destination) => .ok { tunnel := some tunnel, destination }
    | none => .ok {}
  else do
    let target ← httpClientPrefix data (data.length + 1) 0 []
    match target with
    | some target => return { tunnel := some .httpConnect, destination := escapeTlsText target }
    | none =>
      let tunnel ← startTlsClient data
      return { tunnel }

/-- The server side before its ServerHello; a SOCKS4 reply cannot tell 4 from 4a. -/
def classifyServerPrefix (data : List UInt8) : Except TextFailure (Option Tunnel) :=
  if 2 ≤ data.length ∧ data.getD 0 0 = 5 then
    .ok (if socks5Server data then some .socks5 else none)
  else if data.length = 8 ∧ data.getD 0 0 = 0 ∧ data.getD 1 0 = 0x5A then
    .ok (some .socks4)
  else do
    let http ← httpServerPrefix data (data.length + 1) 0
    if http then return some .httpConnect else startTlsServer data

end PacketQuapture.Tls
