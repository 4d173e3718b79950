import Mathlib.Data.List.DropRight
import WebLinked.Base.NumberText
import WebLinked.Core.StreamArgs

/-!
# The HTTP server

`src/control/http_server.h`, `src/control/http_server.cpp:46–125,179–244,444–460,516–638`. A
connection is served one request after another from what `recv` gives, in pieces that may end
anywhere. Texts are sequences of bytes, a character each.
-/

namespace WebLinked.Control.Http

open WebLinked.Base NumberText WebLinked.Core

/-- A text. -/
abbrev Text := List Char

/-- `lowercase`; `src/control/http_server.cpp:53`. -/
def lowercase (text : Text) : Text := text.map Char.toLower

/-- What `trim` takes off. -/
def isBlank (c : Char) : Bool := c = ' ' || c = '\t' || c = '\r' || c = '\n'

/-- `trim`; `src/control/http_server.cpp:62`. -/
def trim (text : Text) : Text := (text.dropWhile isBlank).rdropWhile isBlank

/-- What `getline` gives until it fails: nothing after a last `delimiter`. -/
def getlines (delimiter : Char) : Text → List Text
  | [] => []
  | c :: rest =>
    if c = delimiter then [] :: getlines delimiter rest
    else
      match getlines delimiter rest with
      | [] => [[c]]
      | line :: lines => (c :: line) :: lines

/-- `operator>>` of a stream: a word, and what follows it. -/
def word (text : Text) : Text × Text :=
  let text := text.dropWhile isSpace
  (text.takeWhile (!isSpace ·), text.dropWhile (!isSpace ·))

/-- `strtoul` of base 10, of 64 bits. -/
def strtoul (text : Text) : ℕ :=
  let (neg, text) := takeSign (text.dropWhile isSpace)
  let n := Nat.ofDigitChars 10 (text.takeWhile Char.isDigit) 0
  if 2 ^ 64 ≤ n then 2 ^ 64 - 1 else if neg then (2 ^ 64 - n) % 2 ^ 64 else n

/-- `strtol` of base 16 of a text whose number fits, and what it leaves. -/
def strtolHex (text : Text) : ℤ × Text :=
  let (neg, body) := takeSign (text.dropWhile isSpace)
  let body :=
    match body with
    | '0' :: x :: digit :: rest =>
      if x.toLower = 'x' && isHexDigit digit then digit :: rest else body
    | _ => body
  if body.takeWhile isHexDigit = [] then (0, text)
  else
    let n : ℤ := (body.takeWhile isHexDigit).foldl (fun n c ↦ 16 * n + hexDigit c) 0
    (if neg then -n else n, body.dropWhile isHexDigit)

/-- `urlDecode`; `src/control/http_server.cpp:225`. -/
def urlDecode : Text → Text
  | [] => []
  | '%' :: a :: b :: rest =>
    let (value, left) := strtolHex ([a, b].takeWhile (· ≠ '\x00'))
    if left = [] then Char.ofNat (value % 256).toNat :: urlDecode rest
    else '%' :: urlDecode (a :: b :: rest)
  | c :: rest => (if c = '+' then ' ' else c) :: urlDecode rest

/-- `Request`; `src/control/http_server.h:38`. Headers are in the order their keys were first set. -/
structure Request where
  method : Text := []
  path : Text := []
  query : Text := []
  headers : List (Text × Text) := []
  body : Text := []
  deriving DecidableEq

/-- `headers[key] = value`. -/
def setHeader (key value : Text) : List (Text × Text) → List (Text × Text)
  | [] => [(key, value)]
  | header :: headers =>
    if header.1 = key then (key, value) :: headers else header :: setHeader key value headers

/-- The first pair of a query that is of a key. -/
def findPair (key fallback : Text) : List Text → Text
  | [] => fallback
  | pair :: pairs =>
    if '=' ∈ pair then
      if pair.takeWhile (· ≠ '=') = key then urlDecode (pair.dropWhile (· ≠ '=')).tail
      else findPair key fallback pairs
    else if pair = key then []
    else findPair key fallback pairs

/-- `Request::param`; `src/control/http_server.cpp:200`. -/
def Request.param (request : Request) (key : Text) (fallback : Text := []) : Text :=
  findPair key fallback (getlines '&' request.query)

/-- `Response`; `src/control/http_server.h:49`. -/
structure Response where
  status : ℤ := 200
  contentType : Text := "application/json".toList
  body : Text := []
  binaryBody : Text := []
  useBinary : Bool := false
  extraHeaders : List (Text × Text) := []
  deriving DecidableEq

/-- What a message is in an error. -/
def escape (message : Text) : Text :=
  message.flatMap fun c ↦
    if c = '"' || c = '\\' then ['\\', c] else if c = '\n' then ['\\', 'n'] else [c]

/-- `Response::error`; `src/control/http_server.cpp:181`. -/
def Response.error (response : Response) (code : ℤ) (message : String) : Response :=
  { response with
    status := code
    contentType := "application/json".toList
    body := "\x7b\"error\":\"".toList ++ escape message.toList ++ "\"\x7d".toList }

/-- `statusText`; `src/control/http_server.cpp:71`. -/
def statusText (status : ℤ) : String :=
  if status = 200 then "OK"
  else if status = 204 then "No Content"
  else if status = 400 then "Bad Request"
  else if status = 401 then "Unauthorized"
  else if status = 404 then "Not Found"
  else if status = 405 then "Method Not Allowed"
  else if status = 409 then "Conflict"
  else if status = 500 then "Internal Server Error"
  else if status = 503 then "Service Unavailable"
  else "OK"

/-- A server: its token, and its handler, which answers a request that is one of so many before it
on its connection. -/
structure HttpServer where
  token : Text := []
  handler : Option (ℕ → Request → Response) := none

/-- `authorised`; `src/control/http_server.cpp:444`. -/
def HttpServer.authorised (server : HttpServer) (request : Request) : Bool :=
  let isBearer (header : Text) : Bool :=
    "Bearer ".toList.isPrefixOf header && header.drop 7 = server.token
  server.token = [] || request.param "token".toList = server.token ||
    (request.headers.lookup "authorization".toList).any isBearer

/-- What is still to be received, in the pieces it arrives in; an empty one is the end. -/
abbrev Incoming := List Text

/-- `recv` of at most so many bytes. -/
def recv (most : ℕ) : Incoming → Text × Incoming
  | [] => ([], [])
  | piece :: pieces =>
    if piece.length ≤ most then (piece, pieces) else (piece.take most, piece.drop most :: pieces)

/-- The end of a header block. -/
def headerEnd : Text := "\r\n\r\n".toList

/-- `readHeaders`, for as many calls of `recv`; `src/control/http_server.cpp:98`. -/
def readHeaders : ℕ → Text → Incoming → Option (Text × Incoming)
  | 0, _, _ => none
  | calls + 1, buffer, incoming =>
    if (findText headerEnd buffer).isSome then some (buffer, incoming)
    else if 64 * 1024 < buffer.length then none
    else
      match recv 4096 incoming with
      | ([], _) => none
      | (chunk, incoming) => readHeaders calls (buffer ++ chunk) incoming

/-- `readExactly`, for as many calls of `recv`; `src/control/http_server.cpp:113`. -/
def readExactly (wanted : ℕ) : ℕ → Text → Incoming → Option (Text × Incoming)
  | 0, _, _ => none
  | calls + 1, buffer, incoming =>
    if wanted ≤ buffer.length then some (buffer, incoming)
    else
      match recv (min 4096 (wanted - buffer.length)) incoming with
      | ([], _) => none
      | (chunk, incoming) => readExactly wanted calls (buffer ++ chunk) incoming

/-- Calls enough to receive everything. -/
def allCalls (incoming : Incoming) : ℕ := incoming.flatten.length + 1

/-- The request line; `src/control/http_server.cpp:547–557`. -/
def readRequestLine (line : Text) : Request :=
  let (method, rest) := word line
  let (target, _) := word rest
  { method, path := target.takeWhile (· ≠ '?'), query := (target.dropWhile (· ≠ '?')).tail }

/-- One line of the headers; `src/control/http_server.cpp:560–570`. -/
def readHeader (acc : List (Text × Text) × Bool) (line : Text) : List (Text × Text) × Bool :=
  if ':' ∈ line then
    let key := lowercase (trim (line.takeWhile (· ≠ ':')))
    let value := trim (line.dropWhile (· ≠ ':')).tail
    let closes := key = "connection".toList && (findText "close".toList (lowercase value)).isSome
    (setHeader key value acc.1, acc.2 && !closes)
  else acc

/-- The `Content-Length` of a request; `src/control/http_server.cpp:572–577`. -/
def Request.contentLength (request : Request) : ℕ :=
  ((request.headers.lookup "content-length".toList).map strtoul).getD 0

/-- The longest body; `src/control/http_server.cpp:578`. -/
def maxBody : ℕ := 8 * 1024 * 1024

/-- One request served: whether the handler was called for it, what was answered, and whether the
connection is kept. -/
structure Exchange where
  request : Request
  called : Bool
  response : Response
  keepAlive : Bool
  deriving DecidableEq

/-- The head of an answer; `src/control/http_server.cpp:605–618`. -/
def Exchange.head (exchange : Exchange) : Text :=
  let response := exchange.response
  let length := if response.useBinary then response.binaryBody.length else response.body.length
  "HTTP/1.1 ".toList ++ NumberText.toString response.status ++ " ".toList ++
    (statusText response.status).toList ++ "\r\nContent-Type: ".toList ++ response.contentType ++
    "\r\nContent-Length: ".toList ++ NumberText.toString length ++
    "\r\nCache-Control: no-store\r\nConnection: ".toList ++
    (if exchange.keepAlive then "keep-alive" else "close").toList ++ "\r\n".toList ++
    response.extraHeaders.flatMap (fun (key, value) ↦
      key ++ ": ".toList ++ value ++ "\r\n".toList) ++ "\r\n".toList

/-- Who answers a request that has been read; `src/control/http_server.cpp:595–602`. -/
def HttpServer.answer (server : HttpServer) (served : ℕ) (request : Request) : Bool × Response :=
  if !server.authorised request then
    (false, ({} : Response).error 401 "missing or incorrect token")
  else
    match server.handler with
    | some handler => (true, handler served request)
    | none => (false, ({} : Response).error 503 "no handler installed")

/-- One turn of `serveConnection`, as far as what is sent, with the buffer it leaves; none where it
ends the connection instead; `src/control/http_server.cpp:535–618`. -/
def HttpServer.serveOne (server : HttpServer) (served : ℕ) (buffer : Text) (incoming : Incoming) :
    Option (Exchange × Text × Incoming) := do
  let (buffer, incoming) ← readHeaders (allCalls incoming) buffer incoming
  let headerEnd ← findText headerEnd buffer
  let remainder := buffer.drop (headerEnd + 4)
  match getlines '\n' (buffer.take headerEnd) with
  | [] => none
  | line :: lines =>
    let (headers, keepAlive) := lines.foldl readHeader ([], true)
    let request := { readRequestLine line with headers }
    let contentLength := request.contentLength
    if maxBody < contentLength then
      -- The answer that is made ready for this is never sent.
      let (called, response) := server.answer served request
      some ({ request, called, response, keepAlive := false }, [], incoming)
    else if 0 < contentLength then
      let (remainder, incoming) ← readExactly contentLength (allCalls incoming) remainder incoming
      let request := { request with body := remainder.take contentLength }
      let (called, response) := server.answer served request
      some ({ request, called, response, keepAlive }, remainder.drop contentLength, incoming)
    else
      let (called, response) := server.answer served request
      some ({ request, called, response, keepAlive }, remainder, incoming)

/-- What a turn meets: whether the server still runs, and whether all of the answer could be sent. -/
structure Turn where
  running : Bool := true
  sent : Bool := true

/-- The turns that are left; `src/control/http_server.cpp:534,617–637`. -/
def HttpServer.serve (server : HttpServer) (turn : ℕ → Turn) :
    ℕ → ℕ → Text → Incoming → List Exchange
  | 0, _, _, _ => []
  | left + 1, served, buffer, incoming =>
    if (turn served).running then
      match server.serveOne served buffer incoming with
      | none => []
      | some (exchange, buffer, incoming) =>
        exchange ::
          if (turn served).sent && exchange.keepAlive then
            server.serve turn left (served + 1) buffer incoming
          else []
    else []

/-- `serveConnection`; `src/control/http_server.cpp:516`. -/
def HttpServer.serveConnection (server : HttpServer) (turn : ℕ → Turn) (incoming : Incoming) :
    List Exchange :=
  server.serve turn 200 0 [] incoming

/-- The requests the handler was called for. -/
def calls (exchanges : List Exchange) : List Request :=
  (exchanges.filter (·.called)).map (·.request)

end WebLinked.Control.Http
