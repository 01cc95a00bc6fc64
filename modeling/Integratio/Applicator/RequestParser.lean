import Integratio.Lib.Scan
import Integratio.Tins.Packet

/-!
# The HTTP request parser (`httpparser`)

`HttpRequestParser::consume`: one `step` of its loop reads a character in the parser's state and
goes on, or returns. The states of `httprequestparser.h` that `consume` has no case for are never
entered and are left out. A `std::string` is a list of bytes; a `char` above 127 is negative, so it
is neither a character, nor a control, nor a special (`isChar`, `isControl`, `isSpecial`).

`std::vector::reserve` throws when it is asked for more than `max_size()`, or for more than the
allocator gives (`memory`, the size of the largest block it has), and the exception leaves `consume`
(`refusal`). The content is the only vector that is reserved by a number in the text; all other
allocations are of the size of what was read, and are taken to succeed. A signed overflow wraps.
-/

namespace Integratio

/-- The bytes of a text. -/
def utf8 (s : String) : Bytes := s.toUTF8.data.toList

/-- The byte of a character. -/
def chr (c : Char) : UInt8 := c.toUInt8

/-- `Request::HeaderItem`. -/
structure HeaderItem where
  name : Bytes := []
  value : Bytes := []
  deriving DecidableEq, Repr

/-- `httpparser::Request`. -/
structure Request where
  method : Bytes := []
  uri : Bytes := []
  versionMajor : Int := 0
  versionMinor : Int := 0
  headers : List HeaderItem := []
  content : Bytes := []
  keepAlive : Bool := false
  deriving DecidableEq, Repr

/-- `req.headers.back()`, changed. -/
def Request.back (req : Request) (f : HeaderItem → HeaderItem) : Request :=
  { req with headers := req.headers.dropLast ++ (req.headers.getLast?.map f).toList }

inductive ParseResult
  | parsingCompleted
  | parsingIncompleted
  | parsingError
  deriving DecidableEq, Repr

/-- What leaves `consume` instead of a result. -/
inductive Throw
  | lengthError
  | badAlloc
  deriving DecidableEq, Repr

/-! ## The C library -/

def isDigit (b : UInt8) : Bool := chr '0' ≤ b ∧ b ≤ chr '9'

def isalpha (b : UInt8) : Bool := chr 'a' ≤ b ∧ b ≤ chr 'z' ∨ chr 'A' ≤ b ∧ b ≤ chr 'Z'

def isalnum (b : UInt8) : Bool := isalpha b ∨ isDigit b

def isspace (b : UInt8) : Bool := b = chr ' ' ∨ 9 ≤ b ∧ b ≤ 13

def tolower (b : UInt8) : UInt8 := if chr 'A' ≤ b ∧ b ≤ chr 'Z' then b + 32 else b

/-- `strcasecmp(a, b) == 0`. -/
def strcasecmp (a b : Bytes) : Bool := a.map tolower = b.map tolower

/-- The value of a digit in bases up to 36. -/
def digitValue (b : UInt8) : Nat :=
  if isDigit b then b.toNat - 48
  else if isalpha b then (tolower b).toNat - 87
  else 36

/-- The number at the start of a text. -/
def digits (base : Nat) (s : Bytes) : Nat :=
  (s.takeWhile (digitValue · < base)).foldl (fun n b => n * base + digitValue b) 0

/-- `strtol` for base 10 or 16, which skips blanks, takes a sign, and saturates. -/
def strtol (s : Bytes) (base : Nat) : Int :=
  let s := s.dropWhile isspace
  let neg := s.head? = some (chr '-')
  let s := if neg ∨ s.head? = some (chr '+') then s.tail else s
  -- "0x" is a prefix in base 16 when a digit follows
  let hex := base = 16 ∧ s.head? = some (chr '0') ∧
    s.tail.head?.map tolower = some (chr 'x') ∧ (s.drop 2).head?.any (digitValue · < 16)
  let n := digits base (if hex then s.drop 2 else s)
  if neg then max (-(n : Int)) (-2 ^ 63) else min (n : Int) (2 ^ 63 - 1)

/-- An `int`, which wraps. -/
def int32 (x : Int) : Int := x.bmod (2 ^ 32)

/-- `atoi`: `strtol` as an `int`. -/
def atoi (s : Bytes) : Int := int32 (strtol s 10)

/-- `std::vector<char>::max_size()`. -/
def maxSize : Nat := 2 ^ 63 - 1

/-- What `reserve(n)` throws. -/
def refusal (memory n : Nat) : Option Throw :=
  if n > maxSize then some .lengthError
  else if n > memory then some .badAlloc
  else none

/-! ## The parser -/

namespace HttpRequestParser

inductive State
  | requestMethodStart
  | requestMethod
  | requestUriStart
  | requestUri
  | requestHttpVersion_h
  | requestHttpVersion_ht
  | requestHttpVersion_htt
  | requestHttpVersion_http
  | requestHttpVersion_slash
  | requestHttpVersion_majorStart
  | requestHttpVersion_major
  | requestHttpVersion_minorStart
  | requestHttpVersion_minor
  | responseHttpVersion_newLine
  | headerLineStart
  | headerLws
  | headerName
  | spaceBeforeHeaderValue
  | headerValue
  | expectingNewline_2
  | expectingNewline_3
  | post
  | chunkSize
  | chunkExtensionName
  | chunkExtensionValue
  | chunkSizeNewLine
  | chunkSizeNewLine_2
  | chunkSizeNewLine_3
  | chunkTrailerName
  | chunkTrailerValue
  | chunkDataNewLine_1
  | chunkDataNewLine_2
  | chunkData
  deriving DecidableEq, Repr

end HttpRequestParser

structure HttpRequestParser where
  state : HttpRequestParser.State := .requestMethodStart
  contentSize : BitVec 64 := 0
  chunkSizeStr : Bytes := []
  chunkSize : BitVec 64 := 0
  chunked : Bool := false
  deriving DecidableEq, Repr

namespace HttpRequestParser

open Scanner

/-- Check if a byte is an HTTP character. -/
def isChar (b : UInt8) : Bool := b ≤ 127

/-- Check if a byte is an HTTP control character. -/
def isControl (b : UInt8) : Bool := b ≤ 31 ∨ b = 127

/-- Check if a byte is defined as an HTTP special character. -/
def isSpecial (b : UInt8) : Bool := b ∈ utf8 "()<>@,;:\\\"/[]?=\x7b\x7d \t"

/-- A byte of a method or of a header's name. -/
def isToken (b : UInt8) : Bool := isChar b && !isControl b && !isSpecial b

def checkIfConnection (item : HeaderItem) : Bool := strcasecmp item.name (utf8 "Connection")

/-- What `consume` returns. -/
abbrev Outcome := Except Throw (ParseResult × Request)

/-- Where the loop is: the parser and the request so far. -/
abbrev Loop := HttpRequestParser × Request

/-- `state = st`. -/
def goto (p : HttpRequestParser) (req : Request) (st : State) : Next Loop Outcome :=
  .next ({ p with state := st }, req)

/-- `return r`. -/
def ret (req : Request) (r : ParseResult) : Next Loop Outcome := .stop (.ok (r, req))

/-- A state that takes one character only. -/
def expect (p : HttpRequestParser) (req : Request) (input c : UInt8) (st : State) :
    Next Loop Outcome :=
  if input = c then goto p req st else ret req .parsingError

variable (memory : Nat)

/-- `content.reserve(n)`, and what comes after it. -/
def reserve (n : BitVec 64) (k : Next Loop Outcome) : Next Loop Outcome :=
  match refusal memory n.toNat with
  | some e => .stop (.error e)
  | none => k

/-- The end of a header's value: for a POST or a PUT it may announce the content. -/
def endValue (p : HttpRequestParser) (req : Request) : Next Loop Outcome :=
  if req.method = utf8 "POST" ∨ req.method = utf8 "PUT" then
    match req.headers.getLast? with
    | some h =>
      if strcasecmp h.name (utf8 "Content-Length") then
        let size := BitVec.ofInt 64 (atoi h.value)
        reserve memory size (goto { p with contentSize := size } req .expectingNewline_2)
      else if strcasecmp h.name (utf8 "Transfer-Encoding") then
        goto { p with chunked := p.chunked || strcasecmp h.value (utf8 "chunked") } req
          .expectingNewline_2
      else goto p req .expectingNewline_2
    -- there is a header in this state
    | none => goto p req .expectingNewline_2
  else goto p req .expectingNewline_2

/-- `req.keepAlive` at the end of the headers. -/
def setKeepAlive (req : Request) : Request :=
  match req.headers.find? checkIfConnection with
  | some it => { req with keepAlive := strcasecmp it.value (utf8 "Keep-Alive") }
  | none =>
    if req.versionMajor > 1 ∨ req.versionMajor = 1 ∧ req.versionMinor = 1 then
      { req with keepAlive := true }
    else req

/-- One round of the loop of `consume`. -/
def step (l : Loop) (input : UInt8) : Next Loop Outcome :=
  let p := l.1
  let req := l.2
  match p.state with
  | .requestMethodStart =>
    if !isToken input then ret req .parsingError
    else goto p { req with method := req.method ++ [input] } .requestMethod
  | .requestMethod =>
    if input = chr ' ' then goto p req .requestUriStart
    else if !isToken input then ret req .parsingError
    else goto p { req with method := req.method ++ [input] } .requestMethod
  | .requestUriStart =>
    if isControl input then ret req .parsingError
    else goto p { req with uri := req.uri ++ [input] } .requestUri
  | .requestUri =>
    if input = chr ' ' then goto p req .requestHttpVersion_h
    else if input = chr '\r' then
      ret { req with versionMajor := 0, versionMinor := 9 } .parsingCompleted
    else if isControl input then ret req .parsingError
    else goto p { req with uri := req.uri ++ [input] } .requestUri
  | .requestHttpVersion_h => expect p req input (chr 'H') .requestHttpVersion_ht
  | .requestHttpVersion_ht => expect p req input (chr 'T') .requestHttpVersion_htt
  | .requestHttpVersion_htt => expect p req input (chr 'T') .requestHttpVersion_http
  | .requestHttpVersion_http => expect p req input (chr 'P') .requestHttpVersion_slash
  | .requestHttpVersion_slash =>
    if input = chr '/' then
      goto p { req with versionMajor := 0, versionMinor := 0 } .requestHttpVersion_majorStart
    else ret req .parsingError
  | .requestHttpVersion_majorStart =>
    if isDigit input then
      goto p { req with versionMajor := input.toNat - 48 } .requestHttpVersion_major
    else ret req .parsingError
  | .requestHttpVersion_major =>
    if input = chr '.' then goto p req .requestHttpVersion_minorStart
    else if isDigit input then
      goto p { req with versionMajor := int32 (req.versionMajor * 10 + input.toNat - 48) }
        .requestHttpVersion_major
    else ret req .parsingError
  | .requestHttpVersion_minorStart =>
    if isDigit input then
      goto p { req with versionMinor := input.toNat - 48 } .requestHttpVersion_minor
    else ret req .parsingError
  | .requestHttpVersion_minor =>
    if input = chr '\r' then goto p req .responseHttpVersion_newLine
    else if isDigit input then
      goto p { req with versionMinor := int32 (req.versionMinor * 10 + input.toNat - 48) }
        .requestHttpVersion_minor
    else ret req .parsingError
  | .responseHttpVersion_newLine => expect p req input (chr '\n') .headerLineStart
  | .headerLineStart =>
    if input = chr '\r' then goto p req .expectingNewline_3
    else if req.headers ≠ [] ∧ (input = chr ' ' ∨ input = chr '\t') then goto p req .headerLws
    else if !isToken input then ret req .parsingError
    else goto p { req with headers := req.headers ++ [{ name := [input] }] } .headerName
  | .headerLws =>
    if input = chr '\r' then goto p req .expectingNewline_2
    else if input = chr ' ' ∨ input = chr '\t' then goto p req .headerLws
    else if isControl input then ret req .parsingError
    else goto p (req.back fun h => { h with value := h.value ++ [input] }) .headerValue
  | .headerName =>
    if input = chr ':' then goto p req .spaceBeforeHeaderValue
    else if !isToken input then ret req .parsingError
    else goto p (req.back fun h => { h with name := h.name ++ [input] }) .headerName
  | .spaceBeforeHeaderValue => expect p req input (chr ' ') .headerValue
  | .headerValue =>
    if input = chr '\r' then endValue memory p req
    else if isControl input then ret req .parsingError
    else goto p (req.back fun h => { h with value := h.value ++ [input] }) .headerValue
  | .expectingNewline_2 => expect p req input (chr '\n') .headerLineStart
  | .expectingNewline_3 =>
    let req := setKeepAlive req
    if p.chunked then goto p req .chunkSize
    else if p.contentSize = 0 then
      if input = chr '\n' then ret req .parsingCompleted else ret req .parsingError
    else goto p req .post
  | .post =>
    let p := { p with contentSize := p.contentSize - 1 }
    let req := { req with content := req.content ++ [input] }
    if p.contentSize = 0 then ret req .parsingCompleted else goto p req .post
  | .chunkSize =>
    if isalnum input then goto { p with chunkSizeStr := p.chunkSizeStr ++ [input] } req .chunkSize
    else if input = chr ';' then goto p req .chunkExtensionName
    else if input = chr '\r' then goto p req .chunkSizeNewLine
    else ret req .parsingError
  | .chunkExtensionName =>
    if isalnum input ∨ input = chr ' ' then goto p req .chunkExtensionName
    else if input = chr '=' then goto p req .chunkExtensionValue
    else if input = chr '\r' then goto p req .chunkSizeNewLine
    else ret req .parsingError
  | .chunkExtensionValue =>
    if isalnum input ∨ input = chr ' ' then goto p req .chunkExtensionValue
    else if input = chr '\r' then goto p req .chunkSizeNewLine
    else ret req .parsingError
  | .chunkSizeNewLine =>
    if input = chr '\n' then
      let size := BitVec.ofInt 64 (strtol p.chunkSizeStr 16)
      let p := { p with chunkSize := size, chunkSizeStr := [] }
      reserve memory (BitVec.ofNat 64 req.content.length + size)
        (goto p req (if size = 0 then .chunkSizeNewLine_2 else .chunkData))
    else ret req .parsingError
  | .chunkSizeNewLine_2 =>
    if input = chr '\r' then goto p req .chunkSizeNewLine_3
    else if isalpha input then goto p req .chunkTrailerName
    else ret req .parsingError
  | .chunkSizeNewLine_3 =>
    if input = chr '\n' then ret req .parsingCompleted else ret req .parsingError
  | .chunkTrailerName =>
    if isalnum input then goto p req .chunkTrailerName
    else if input = chr ':' then goto p req .chunkTrailerValue
    else ret req .parsingError
  | .chunkTrailerValue =>
    if isalnum input ∨ input = chr ' ' then goto p req .chunkTrailerValue
    else if input = chr '\r' then goto p req .chunkSizeNewLine
    else ret req .parsingError
  | .chunkData =>
    let p := { p with chunkSize := p.chunkSize - 1 }
    let req := { req with content := req.content ++ [input] }
    goto p req (if p.chunkSize = 0 then .chunkDataNewLine_1 else .chunkData)
  | .chunkDataNewLine_1 => expect p req input (chr '\r') .chunkDataNewLine_2
  | .chunkDataNewLine_2 => expect p req input (chr '\n') .chunkSize

def consume (p : HttpRequestParser) (req : Request) (input : Bytes) : Outcome :=
  scan (step memory) (fun l => .ok (.parsingIncompleted, l.2)) (p, req) input

/-- `HttpRequestParser::parse` with a new parser and a new request. -/
def parse (input : Bytes) : Outcome := consume memory {} {} input

end HttpRequestParser

end Integratio
