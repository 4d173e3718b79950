import WebLinked.Control.HttpFraming
import WebLinked.Core.JsonAcceptance
import WebLinked.Core.JsonRoundTrip

/-!
# The plugin's request

`plugin/source/Helper.cpp:58–125,261–266`. What the plugin posts when the URL changes, against what
the control server makes of it. Texts are sequences of bytes, a character each.
-/

namespace WebLinked.Plugin

open WebLinked.Base WebLinked.Core WebLinked.Core.Json
open WebLinked.Core.Json.Grammar (Piece Tree Document Padded quad decode quoted AllBlank)
open WebLinked.Control.Http (Text Sent HttpServer Incoming Turn Response Exchange calls maxBody)

/-! ## What is written -/

/-- One character of `jsonEscape`; `plugin/source/Helper.cpp:107–122`. -/
def escapeChar (c : Char) : Text :=
  if c = '"' then ['\\', '"']
  else if c = '\\' then ['\\', '\\']
  else if c = '\n' then ['\\', 'n']
  else if c = '\r' then ['\\', 'r']
  else if c = '\t' then ['\\', 't']
  else if c.toNat < 0x20 then '\\' :: 'u' :: (Nat.toDigits 16 c.toNat).leftpad 4 '0'
  else [c]

/-- `jsonEscape`; `plugin/source/Helper.cpp:104`. -/
def jsonEscape (text : Text) : Text := text.flatMap escapeChar

/-- The body that `setUrl` posts; `plugin/source/Helper.cpp:265`. -/
def urlBody (url : String) : Text :=
  "\x7b\"url\":\"".toList ++ jsonEscape url.toList ++ "\"\x7d".toList

/-- The request of `postLocal`; `plugin/source/Helper.cpp:84–89`. -/
def postText (path body : Text) : Text :=
  "POST ".toList ++ path ++ " HTTP/1.1\r\n".toList ++ "Host: 127.0.0.1\r\n".toList ++
    "Content-Type: application/json\r\n".toList ++ "Content-Length: ".toList ++
    NumberText.toString body.length ++ "\r\n".toList ++ "Connection: close\r\n\r\n".toList ++ body

/-- What `postLocal` meets: whether it could connect, how many bytes of the request were taken at
once, and what its one `recv` got; none for an error. -/
structure Exchanged where
  connected : Bool := true
  written : ℕ → ℕ := id
  received : Option Text := none

/-- Whether `postLocal` takes its request for accepted: 200 between blanks in the first 255 bytes,
as far as `strstr` reads; `plugin/source/Helper.cpp:58`. -/
def postLocal (port : ℕ) (path body : Text) (exchanged : Exchanged) : Bool :=
  let request := postText path body
  port ≠ 0 && exchanged.connected && exchanged.written request.length = request.length &&
    exchanged.received.any fun text ↦
      (findText " 200 ".toList ((text.take 255).takeWhile (· ≠ '\x00'))).isSome

/-! ## The body -/

/-- How a character of a URL is written. -/
def piece (c : Char) : Piece :=
  if c = '"' then .short '"'
  else if c = '\\' then .short '\\'
  else if c = '\n' then .short 'n'
  else if c = '\r' then .short 'r'
  else if c = '\t' then .short 't'
  else if c.toNat < 0x20 then .code '0' '0' (c.toNat / 16).digitChar (c.toNat % 16).digitChar
  else .raw c

/-- The digits of a control character. -/
theorem digits_control : ∀ n < 0x20,
    (Nat.toDigits 16 n).leftpad 4 '0' = ['0', '0', (n / 16).digitChar, (n % 16).digitChar] ∧
      NumberText.isHexDigit (n / 16).digitChar ∧ NumberText.isHexDigit (n % 16).digitChar ∧
      quad '0' '0' (n / 16).digitChar (n % 16).digitChar = n := by
  decide

/-- A character is written as it is escaped. -/
theorem text_piece (c : Char) : (piece c).text = escapeChar c := by
  by_cases hcontrol : c.toNat < 0x20
  · have hdigits := (digits_control c.toNat hcontrol).1
    simp only [piece, escapeChar, hcontrol, hdigits, if_true]
    split_ifs <;> rfl
  · simp only [piece, escapeChar, hcontrol, if_false]
    split_ifs <;> rfl

/-- What is written is read as one. -/
theorem ok_piece (c : Char) : (piece c).Ok := by
  have hshorts : ∀ c ∈ ['"', '\\', 'n', 'r', 't'], c ∈ Grammar.shorts := by
    simp [Grammar.shorts]
  unfold piece
  split_ifs with hquote hbackslash hn hr ht hcontrol
  · exact hshorts _ (by simp)
  · exact hshorts _ (by simp)
  · exact hshorts _ (by simp)
  · exact hshorts _ (by simp)
  · exact hshorts _ (by simp)
  · have hdigits := digits_control c.toNat hcontrol
    exact ⟨by decide, by decide, hdigits.2.1, hdigits.2.2.1⟩
  · exact ⟨hquote, hbackslash⟩

/-- A character is read as what it was, in front of anything. -/
theorem decode_piece (c : Char) (pieces : List Piece) :
    decode (piece c :: pieces) = c :: decode pieces := by
  unfold piece
  split_ifs with hquote hbackslash hn hr ht hcontrol
  · rw [hquote]
    rfl
  · rw [hbackslash]
    rfl
  · rw [hn]
    rfl
  · rw [hr]
    rfl
  · rw [ht]
    rfl
  · have hquad := (digits_control c.toNat hcontrol).2.2.2
    have hlone :
        ¬ Grammar.IsHigh (quad '0' '0' (c.toNat / 16).digitChar (c.toNat % 16).digitChar) := by
      rw [hquad]
      rintro ⟨hhigh, -⟩
      omega
    rw [Parser.decode_code_cons fun _ _ _ _ _ hhigh _ ↦ absurd hhigh hlone, hquad,
      Parser.appendUtf8, if_pos (by omega), List.map_singleton, Char.ofNat_toNat]
    rfl
  · rfl

/-- A text is read as what was written. -/
theorem decode_pieces (text : Text) : decode (text.map piece) = text := by
  induction text with
  | nil => rfl
  | cons c text ih => rw [List.map_cons, decode_piece, ih]

/-- A text is written as it is escaped. -/
theorem text_pieces (text : Text) : (text.map piece).flatMap Piece.text = jsonEscape text := by
  induction text with
  | nil => rfl
  | cons c text ih =>
    rw [List.map_cons, List.flatMap_cons, text_piece, ih]
    rfl

/-- The body that is posted, as a value. -/
def urlTree (url : String) : Tree :=
  .object [(⟨[], ['u', 'r', 'l'].map .raw, []⟩, ⟨[], .string (url.toList.map piece), []⟩)]

/-- It is written as `setUrl` writes it. -/
theorem text_urlTree (url : String) : (urlTree url).text = urlBody url := by
  have hstring : quoted (url.toList.map piece) = '"' :: (jsonEscape url.toList ++ ['"']) := by
    rw [quoted, text_pieces]
  have hkey : quoted (['u', 'r', 'l'].map Piece.raw) = ['"', 'u', 'r', 'l', '"'] := by
    simp [quoted, Piece.text]
  have hopen : "\x7b\"url\":\"".toList = ['{', '"', 'u', 'r', 'l', '"', ':', '"'] := rfl
  have hclose : "\"\x7d".toList = ['"', '}'] := rfl
  have hbody : urlBody url =
      ['{', '"', 'u', 'r', 'l', '"', ':', '"'] ++ jsonEscape url.toList ++ ['"', '}'] :=
    congrArg₂ (fun front back ↦ front ++ jsonEscape url.toList ++ back) hopen hclose
  rw [hbody]
  simp only [urlTree, Tree.text, Tree.memberTexts, Grammar.separated_singleton, hstring, hkey,
    List.nil_append, List.append_nil, List.append_assoc, List.cons_append]

/-- The body is read as an object whose `url` is the URL, whatever characters are in it. -/
theorem parse_urlBody (url : String) :
    parse (String.ofList (urlBody url)) = .ok (.object [("url", .string url)]) := by
  have hblank : AllBlank [] := by simp [AllBlank]
  have hkey : ∀ p ∈ ['u', 'r', 'l'].map Piece.raw, p.Ok := by
    have hletters : ∀ c ∈ ['u', 'r', 'l'], c ≠ '"' ∧ c ≠ '\\' := by simp
    exact List.forall_mem_map.mpr hletters
  have hurl : ∀ p ∈ url.toList.map piece, p.Ok := List.forall_mem_map.mpr fun c _ ↦ ok_piece c
  apply parse_eq_ok_iff.mpr
  refine ⟨⟨[], urlTree url, []⟩, ⟨hblank, hblank, ?_, ?_⟩, ?_, ?_⟩
  · exact ⟨List.cons_ne_nil _ _, ⟨hblank, hblank, hkey, hblank, hblank, hurl⟩, trivial⟩
  · show max 1 0 + 1 ≤ 64
    omega
  · show [] ++ ((urlTree url).text ++ []) = _
    rw [List.nil_append, List.append_nil, text_urlTree, String.toList_ofList]
  · show Value.object [(String.ofList (decode (['u', 'r', 'l'].map Piece.raw)),
      Value.string (String.ofList (decode (url.toList.map piece))))] = _
    rw [decode_pieces, String.ofList_toList]
    rfl

/-! ## The request -/

/-- The request that `setUrl` posts. -/
def urlSent (url : String) : Sent where
  method := "POST".toList
  path := "/api/url".toList
  headers :=
    [("Host".toList, " 127.0.0.1".toList), ("Content-Type".toList, " application/json".toList),
      ("Content-Length".toList, ' ' :: NumberText.toString (urlBody url).length),
      ("Connection".toList, " close".toList)]
  body := urlBody url

/-- It is written as `postLocal` writes it. -/
theorem bytes_urlSent (url : String) :
    (urlSent url).bytes = postText "/api/url".toList (urlBody url) := by
  unfold urlSent postText
  generalize NumberText.toString (urlBody url).length = digits
  generalize urlBody url = body
  simp [Sent.bytes, Sent.head, Sent.requestLine, Sent.target, Sent.headerLine,
    Control.Http.crlf]

/-- A number is written in decimal. -/
theorem isDecimal_toString (n : ℕ) : Sent.IsDecimal (NumberText.toString n) n := by
  have htext : NumberText.toString n = Nat.toDigits 10 n := by
    rw [NumberText.toString, Int.natAbs_natCast, decide_eq_false (by omega)]
    rfl
  rw [htext]
  exact ⟨Nat.toDigits_ne_nil, NumberText.isDigit_toDigits n, Nat.ofDigitChars_ten_toDigits⟩

/-- What is decided along a text holds of every character of it. -/
theorem forall_of_all {p : Char → Prop} [DecidablePred p] {text : Text}
    (h : text.all (fun c ↦ decide (p c)) = true) : ∀ c ∈ text, p c := by
  intro c hc
  exact of_decide_eq_true (List.all_eq_true.mp h c hc)

/-- The length of a body that is not too long has at most seven digits. -/
theorem length_toString_le {n : ℕ} (h : n ≤ maxBody) : (NumberText.toString n).length ≤ 7 := by
  rw [maxBody] at h
  rw [NumberText.toString, Int.natAbs_natCast, decide_eq_false (by omega)]
  show (Nat.toDigits 10 n).length ≤ 7
  exact Nat.toDigits_length 10 n 7 (by omega) (by omega)

/-- A URL that fits is posted as a request that is well formed. -/
theorem wellFormed_urlSent {url : String} (hsize : (urlBody url).length ≤ maxBody) :
    (urlSent url).WellFormed := by
  have hdecimal := isDecimal_toString (urlBody url).length
  have hshort := length_toString_le hsize
  have hdigit (c : Char) (hc : c ∈ NumberText.toString (urlBody url).length) :
      c ≠ '\r' ∧ c ≠ '\n' ∧ Control.Http.isBlank c = false := by
    have hd := NumberText.isDigit_iff.mp (hdecimal.2.1 c hc)
    have hne (x : Char) (hx : x.toNat < 48) : c ≠ x := by
      rintro rfl
      omega
    refine ⟨hne '\r' (by decide), hne '\n' (by decide), ?_⟩
    simp [Control.Http.isBlank, hne ' ' (by decide), hne '\t' (by decide), hne '\r' (by decide),
      hne '\n' (by decide)]
  have htrim : Control.Http.trim (' ' :: NumberText.toString (urlBody url).length) =
      NumberText.toString (urlBody url).length := by
    have h := Control.Http.trim_eq fun c hc ↦ (hdigit c hc).2.2
    rw [Control.Http.trim] at h
    rw [Control.Http.trim, List.dropWhile_cons_of_pos rfl, h]
  constructor
  · exact ⟨List.cons_ne_nil _ _, forall_of_all rfl⟩
  · exact ⟨List.cons_ne_nil _ _, forall_of_all rfl⟩
  · exact fun _ hquery ↦ absurd hquery (Option.not_mem_none _)
  · exact forall_of_all rfl
  · intro h hh
    simp only [urlSent, List.mem_cons, List.not_mem_nil, or_false] at hh
    rcases hh with rfl | rfl | rfl | rfl <;> exact ⟨List.cons_ne_nil _ _, forall_of_all rfl⟩
  · intro h hh
    simp only [urlSent, List.mem_cons, List.not_mem_nil, or_false] at hh
    rcases hh with rfl | rfl | rfl | rfl
    · exact forall_of_all rfl
    · exact forall_of_all rfl
    · exact List.forall_mem_cons.mpr ⟨by decide, fun c hc ↦ ⟨(hdigit c hc).1, (hdigit c hc).2.1⟩⟩
    · exact forall_of_all rfl
  · simp [Sent.head, Sent.requestLine, Sent.target, Sent.headerLine, urlSent, Control.Http.crlf]
    omega
  · intro h hh hname
    simp only [urlSent, List.mem_cons, List.not_mem_nil, or_false] at hh
    rcases hh with rfl | rfl | rfl | rfl
    · exact absurd hname (by decide)
    · exact absurd hname (by decide)
    · show Sent.IsDecimal (Control.Http.trim (' ' :: _)) _
      rw [htrim]
      exact hdecimal
    · exact absurd hname (by decide)
  · intro _
    exact ⟨_, List.mem_cons_of_mem _ (List.mem_cons_of_mem _ List.mem_cons_self),
      (by decide : Control.Http.lowercase "Content-Length".toList = "content-length".toList)⟩
  · exact hsize

/-- The plugin asks for the connection to be closed. -/
theorem hasClose_urlSent (url : String) : (urlSent url).hasClose = true := by
  have hclose : (decide (Control.Http.lowercase "Connection".toList = "connection".toList) &&
      (findText "close".toList
        (Control.Http.lowercase (Control.Http.trim " close".toList))).isSome) = true := by decide
  rw [Sent.hasClose]
  apply List.any_eq_true.mpr
  exact ⟨("Connection".toList, " close".toList), by simp [urlSent], hclose⟩

/-- What an answer with status 200 begins with. -/
theorem prefix_head_of_ok {exchange : Exchange} (h : exchange.response.status = 200) :
    "HTTP/1.1 200 ".toList <+: exchange.head := by
  unfold Exchange.head
  dsimp only
  rw [h]
  iterate 10 refine List.IsPrefix.trans ?_ (List.prefix_append _ _)
  decide

/-- Such an answer is taken for one as soon as its first thirteen bytes are there. -/
theorem postLocal_of_ok {exchange : Exchange} (h : exchange.response.status = 200) {port : ℕ}
    (hport : port ≠ 0) (path body : Text) {got : ℕ} (hgot : 13 ≤ got) :
    postLocal port path body
      { received := some ((exchange.head ++ exchange.response.body).take got) } = true := by
  obtain ⟨rest, hhead⟩ := prefix_head_of_ok h
  have htake (n : ℕ) (hn : 13 ≤ n) (text : Text) :
      ("HTTP/1.1 200 ".toList ++ text).take n = "HTTP/1.1 200 ".toList ++ text.take (n - 13) := by
    rw [List.take_append, List.take_of_length_le hn]
    rfl
  have hfind : findText " 200 ".toList "HTTP/1.1 200 ".toList = some 8 := by decide
  have hnul : ∀ c ∈ "HTTP/1.1 200 ".toList, decide (c ≠ '\x00') = true :=
    List.all_eq_true.mp (by decide)
  simp only [postLocal, ne_eq, hport, not_false_eq_true, decide_true, Bool.true_and, id_eq,
    Option.any_some]
  rw [← hhead, List.append_assoc, htake got hgot, htake 255 (by omega),
    List.takeWhile_append_of_pos hnul, findText_append hfind]
  rfl

/-- Any URL that is posted, in whatever pieces it arrives, is what the handler of a server without
a token is called for, once: a POST of `/api/url` whose body is read as that URL. If it is answered
with status 200, the plugin takes the answer for one as soon as its `recv` got thirteen bytes. -/
theorem url_posted (server : HttpServer) (handler : ℕ → Control.Http.Request → Response)
    (htoken : server.token = []) (hhandler : server.handler = some handler) (turn : ℕ → Turn)
    (hturn : (turn 0).running) (url : String) (hsize : (urlBody url).length ≤ maxBody)
    (incoming : Incoming) (hpieces : ∀ piece ∈ incoming, piece ≠ [])
    (hbytes : incoming.flatten = postText "/api/url".toList (urlBody url)) :
    ∃ exchange, server.serveConnection turn incoming = [exchange] ∧ exchange.called ∧
      exchange.response = handler 0 exchange.request ∧
      exchange.request.method = "POST".toList ∧ exchange.request.path = "/api/url".toList ∧
      (∃ body, parse (String.ofList exchange.request.body) = .ok body ∧
        (body.get "url").asString = url) ∧
      (exchange.response.status = 200 → ∀ port got, port ≠ 0 → 13 ≤ got →
        postLocal port "/api/url".toList (urlBody url)
          { received := some ((exchange.head ++ exchange.response.body).take got) } = true) := by
  have hwell := wellFormed_urlSent hsize
  have hsent : [] ++ incoming.flatten = (urlSent url).bytes ++ [] := by
    rw [List.nil_append, List.append_nil, hbytes, bytes_urlSent]
  obtain ⟨buffer, incoming', hone, -, -⟩ :=
    @Control.Http.serveOne_eq server (urlSent url) [] [] incoming 0 hwell hpieces hsent
  rw [Control.Http.answer_called htoken hhandler, hasClose_urlSent] at hone
  let exchange : Exchange :=
    { request := (urlSent url).request, called := true
      response := handler 0 (urlSent url).request, keepAlive := false }
  have hserve : server.serveConnection turn incoming = [exchange] := by
    rw [HttpServer.serveConnection, HttpServer.serve, if_pos hturn, hone]
    dsimp only
    rw [Bool.not_true, Bool.and_false, if_neg Bool.false_ne_true]
  refine ⟨exchange, hserve, rfl, rfl, rfl, rfl, ⟨_, parse_urlBody url, rfl⟩, ?_⟩
  intro hstatus port got hport hgot
  exact postLocal_of_ok hstatus hport _ _ hgot

/-- A URL with a quote, a backslash and a control character in it, in two pieces. -/
theorem url_posted_quoted :
    let bytes := postText "/api/url".toList (urlBody "http://a/?q=\"\\\x01\"")
    ∃ exchange, ({ handler := some fun _ _ ↦ {} } : HttpServer).serveConnection (fun _ ↦ {})
        [bytes.take 20, bytes.drop 20] = [exchange] ∧
      ∃ body, parse (String.ofList exchange.request.body) = .ok body ∧
        (body.get "url").asString = "http://a/?q=\"\\\x01\"" := by
  obtain ⟨exchange, hserve, -, -, -, -, hbody, -⟩ := url_posted
    { handler := some fun _ _ ↦ {} } (fun _ _ ↦ {}) rfl rfl (fun _ ↦ {}) rfl
    "http://a/?q=\"\\\x01\"" (by decide +kernel)
    [(postText "/api/url".toList (urlBody "http://a/?q=\"\\\x01\"")).take 20,
      (postText "/api/url".toList (urlBody "http://a/?q=\"\\\x01\"")).drop 20]
    (by decide +kernel) (by simp)
  exact ⟨exchange, hserve, hbody⟩

end WebLinked.Plugin
