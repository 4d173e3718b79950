import WebLinked.Control.HttpFraming

/-!
# The address of the control page

`src/control/control_api.cpp:260`. The token is put into the address as it is, and read from it as
the value of a query parameter, so the address opens the page exactly if the token means itself
there.
-/

namespace WebLinked.Control.Http

open WebLinked.Base NumberText WebLinked.Core

/-- `controlUrl`; `src/control/control_api.cpp:260`. -/
def controlUrl (httpBind : Text) (httpPort : ℤ) (httpToken : Text) : Text :=
  let host :=
    if httpBind = [] || httpBind = "0.0.0.0".toList then "127.0.0.1".toList else httpBind
  let url := "http://".toList ++ host ++ ":".toList ++ NumberText.toString httpPort ++ "/".toList
  if httpToken = [] then url else url ++ "?token=".toList ++ httpToken

/-- What a client asks for of an address: what follows the host, without a fragment. -/
def targetOf (url : Text) : Text :=
  (url.drop ((pathStart url).getD url.length)).takeWhile (· ≠ '#')

/-- A `GET` of a target. -/
def getRequest (target : Text) (headers : List (Text × Text)) : Request where
  method := "GET".toList
  path := target.takeWhile (· ≠ '?')
  query := (target.dropWhile (· ≠ '?')).tail
  headers

/-- It has a `%` with two characters after it that `strtol` reads to their end. -/
def hasEscape : Text → Bool
  | [] => false
  | '%' :: a :: b :: rest =>
    (strtolHex ([a, b].takeWhile (· ≠ '\x00'))).2 = [] || hasEscape (a :: b :: rest)
  | _ :: rest => hasEscape rest

/-- What means itself as the value of a parameter in an address. -/
def Plain (token : Text) : Prop :=
  '#' ∉ token ∧ '&' ∉ token ∧ '+' ∉ token ∧ hasEscape token = false

instance : DecidablePred Plain := fun _ ↦ inferInstanceAs (Decidable (_ ∧ _ ∧ _ ∧ _))

section Decoding

variable {text : Text} {c : Char}

/-- Decoding does not make a text longer. -/
theorem length_urlDecode_le (text : Text) : (urlDecode text).length ≤ text.length := by
  fun_induction urlDecode text with
  | case1 => exact Nat.le_refl 0
  | case2 a b rest value h ih =>
    simp only [List.length_cons]
    omega
  | case3 a b rest value left hread h ih =>
    simp only [List.length_cons] at ih ⊢
    omega
  | case4 c rest h ih =>
    simp only [List.length_cons]
    omega

/-- Decoding leaves a text alone that has nothing to decode, and no other. -/
theorem urlDecode_eq_self (text : Text) :
    urlDecode text = text ↔ '+' ∉ text ∧ hasEscape text = false := by
  fun_induction urlDecode text with
  | case1 => simp [hasEscape]
  | case2 a b rest value h ih =>
    -- Three characters become one, and the rest does not become longer.
    have hlen := length_urlDecode_le rest
    constructor
    · intro heq
      have := congrArg List.length heq
      simp only [List.length_cons] at this
      omega
    · rintro ⟨-, hnone⟩
      rw [hasEscape, h] at hnone
      cases hnone
  | case3 a b rest value left hread h ih =>
    have hnot : hasEscape ('%' :: a :: b :: rest) = hasEscape (a :: b :: rest) := by
      rw [hasEscape, hread, decide_eq_false h, Bool.false_or]
    have hplus : '+' ∈ '%' :: a :: b :: rest ↔ '+' ∈ a :: b :: rest := by simp
    rw [hnot, hplus, ← ih, List.cons.injEq]
    exact and_iff_right rfl
  | case4 c rest h ih =>
    have hnot : hasEscape (c :: rest) = hasEscape rest := by
      rw [hasEscape]
      exact h
    rw [hnot, List.cons.injEq, ih, List.mem_cons, not_or, and_assoc]
    refine and_congr_left fun _ ↦ ?_
    split
    · next hc => simp [hc]
    · next hc => simp [Ne.symm hc]

/-- The beginning of a text is as long as the text if it is all of it. -/
theorem takeWhile_eq_self_of_length (h : text.length ≤ (text.takeWhile (· ≠ c)).length) :
    c ∉ text := by
  have heq : text.takeWhile (· ≠ c) = text :=
    (List.takeWhile_prefix (p := (decide <| · ≠ c))).eq_of_length_le h
  intro hc
  have := List.takeWhile_eq_self_iff.mp heq c hc
  simp at this

/-- What is decoded of the value before a `#` and a `&` is the value, if it is plain. -/
theorem urlDecode_eq_iff_plain (token : Text) :
    urlDecode ((token.takeWhile (· ≠ '#')).takeWhile (· ≠ '&')) = token ↔ Plain token := by
  have hfragment := (List.takeWhile_prefix (l := token) (p := (decide <| · ≠ '#'))).length_le
  have hpair := (List.takeWhile_prefix (l := token.takeWhile (· ≠ '#'))
    (p := (decide <| · ≠ '&'))).length_le
  have hdecoded := length_urlDecode_le ((token.takeWhile (· ≠ '#')).takeWhile (· ≠ '&'))
  constructor
  · intro heq
    have hlen := congrArg List.length heq
    have hhash : '#' ∉ token := takeWhile_eq_self_of_length (by omega)
    have hwhole : token.takeWhile (· ≠ '#') = token :=
      List.takeWhile_eq_self_iff.mpr fun c hc ↦ decide_eq_true fun h ↦ hhash (h ▸ hc)
    rw [hwhole] at heq hlen hdecoded
    have hand : '&' ∉ token := takeWhile_eq_self_of_length (by omega)
    have hwhole' : token.takeWhile (· ≠ '&') = token :=
      List.takeWhile_eq_self_iff.mpr fun c hc ↦ decide_eq_true fun h ↦ hand (h ▸ hc)
    rw [hwhole'] at heq
    exact ⟨hhash, hand, (urlDecode_eq_self token).mp heq⟩
  · rintro ⟨hhash, hand, hdecode⟩
    have hwhole : token.takeWhile (· ≠ '#') = token :=
      List.takeWhile_eq_self_iff.mpr fun c hc ↦ decide_eq_true fun h ↦ hhash (h ▸ hc)
    have hwhole' : token.takeWhile (· ≠ '&') = token :=
      List.takeWhile_eq_self_iff.mpr fun c hc ↦ decide_eq_true fun h ↦ hand (h ▸ hc)
    rw [hwhole, hwhole']
    exact (urlDecode_eq_self token).mpr hdecode

end Decoding

section Address

variable {httpBind token : Text} {httpPort : ℤ}

/-- A number has no slash in it. -/
theorem slash_notMem_toString (n : ℤ) : '/' ∉ NumberText.toString n := by
  intro h
  rcases List.mem_append.mp h with h | h
  · unfold sign at h
    split at h
    · exact absurd (List.mem_singleton.mp h) (by decide)
    · cases h
  · exact absurd (isDigit_toDigits n.natAbs '/' h) (by decide)

/-- What follows the host in an address is asked for, up to a fragment. -/
theorem targetOf_append {authority path : Text} (hauthority : '/' ∉ authority) :
    targetOf ("http://".toList ++ (authority ++ '/' :: path)) =
      '/' :: path.takeWhile (· ≠ '#') := by
  have hstart : pathStart ("http://".toList ++ (authority ++ '/' :: path)) =
      some (7 + authority.length) := by
    have hscheme : findText "://".toList "http://".toList = some 4 := by decide
    have hnone : authority.findIdx? (· = '/') = none := by
      rw [List.findIdx?_eq_none_iff]
      exact fun c hc ↦ decide_eq_false fun h ↦ hauthority (h ▸ hc)
    have hfind : (authority ++ '/' :: path).findIdx? (· = '/') = some authority.length := by
      rw [List.findIdx?_append, hnone, List.findIdx?_cons]
      simp
    rw [pathStart, findText_append hscheme]
    change ((authority ++ '/' :: path).findIdx? (· = '/')).map (7 + ·) = _
    rw [hfind]
    rfl
  rw [targetOf, hstart, Option.getD_some, ← List.drop_drop]
  change ((authority ++ '/' :: path).drop authority.length).takeWhile (· ≠ '#') = _
  rw [List.drop_left, List.takeWhile_cons_of_pos (by decide)]

/-- What an address with a token asks for. -/
theorem targetOf_controlUrl (hbind : '/' ∉ httpBind) (htoken : token ≠ []) :
    targetOf (controlUrl httpBind httpPort token) =
      "/?token=".toList ++ token.takeWhile (· ≠ '#') := by
  have hport := slash_notMem_toString httpPort
  have hhost : '/' ∉ (if httpBind = [] || httpBind = "0.0.0.0".toList then "127.0.0.1".toList
      else httpBind) := by
    split
    · decide
    · exact hbind
  rw [controlUrl, if_neg htoken]
  generalize (if httpBind = [] || httpBind = "0.0.0.0".toList then "127.0.0.1".toList
    else httpBind) = host at *
  generalize NumberText.toString httpPort = port at *
  have hauthority : '/' ∉ host ++ ':' :: port := by
    rw [List.mem_append, List.mem_cons]
    rintro (h | h | h)
    · exact hhost h
    · exact absurd h (by decide)
    · exact hport h
  have hplain : ∀ c ∈ "?token=".toList, decide (c ≠ '#') = true :=
    List.all_eq_true.mp (by decide)
  have htarget := @targetOf_append _ ("?token=".toList ++ token) hauthority
  rw [List.takeWhile_append_of_pos hplain] at htarget
  have hurl : "http://".toList ++ host ++ ":".toList ++ port ++ "/".toList ++ "?token=".toList ++
      token = "http://".toList ++ (host ++ ':' :: port ++ '/' :: ("?token=".toList ++ token)) := by
    simp only [List.append_assoc]
    rfl
  rw [hurl, htarget]
  rfl

/-- The first field of a text. -/
theorem getlines_takeWhile {text : Text} (c : Char) (hne : text ≠ []) :
    ∃ lines, getlines c text = text.takeWhile (· ≠ c) :: lines := by
  induction text with
  | nil => exact absurd rfl hne
  | cons x text ih =>
    by_cases hx : x = c
    · exact ⟨getlines c text, by simp [getlines, hx]⟩
    · rw [getlines, if_neg hx, List.takeWhile_cons_of_pos (by simpa using hx)]
      cases text with
      | nil => exact ⟨[], rfl⟩
      | cons y text =>
        obtain ⟨lines, hlines⟩ := ih (List.cons_ne_nil y text)
        exact ⟨lines, by rw [hlines]⟩

/-- A parameter that comes first is read up to a `&`. -/
theorem param_token (target : Text) (headers : List (Text × Text)) :
    (getRequest ("/?token=".toList ++ target) headers).param "token".toList =
      urlDecode (target.takeWhile (· ≠ '&')) := by
  have hquery : (getRequest ("/?token=".toList ++ target) headers).query =
      "token=".toList ++ target := rfl
  have hplain : ∀ c ∈ "token=".toList, decide (c ≠ '&') = true :=
    List.all_eq_true.mp (by decide)
  obtain ⟨lines, hlines⟩ := @getlines_takeWhile ("token=".toList ++ target) '&' (by simp)
  rw [List.takeWhile_append_of_pos hplain] at hlines
  rw [Request.param, hquery, hlines, findPair, if_pos (List.mem_append_left _ (by decide))]
  rfl

/-- The address of the control page is authorised exactly if its token is plain. -/
theorem authorised_controlUrl (server : HttpServer) (httpBind : Text) (httpPort : ℤ)
    (headers : List (Text × Text)) (hbind : '/' ∉ httpBind) (htoken : server.token ≠ [])
    (hheaders : headers.lookup "authorization".toList = none) :
    server.authorised (getRequest (targetOf (controlUrl httpBind httpPort server.token)) headers) ↔
      Plain server.token := by
  have hrequest : (getRequest ("/?token=".toList ++ server.token.takeWhile (· ≠ '#'))
      headers).headers = headers := rfl
  rw [targetOf_controlUrl hbind htoken, HttpServer.authorised, param_token, hrequest, hheaders]
  rw [decide_eq_false htoken, Bool.false_or, Option.any_none, Bool.or_false, decide_eq_true_eq]
  exact urlDecode_eq_iff_plain server.token

/-- A target without blanks is what the server reads of the request line it is in. -/
theorem readRequestLine_getRequest {target : Text} (hne : target ≠ [])
    (hblank : ∀ c ∈ target, isSpace c = false) :
    readRequestLine ("GET ".toList ++ target ++ " HTTP/1.1\r".toList) = getRequest target [] := by
  have hmethod : word ("GET ".toList ++ target ++ " HTTP/1.1\r".toList) =
      ("GET".toList, ' ' :: (target ++ " HTTP/1.1\r".toList)) := by
    rw [List.append_assoc]
    exact @word_append "GET".toList (' ' :: (target ++ " HTTP/1.1\r".toList)) (by decide)
      (by simp [isSpace]) (by simp [isSpace])
  have htarget : word (' ' :: (target ++ " HTTP/1.1\r".toList)) =
      (target, " HTTP/1.1\r".toList) := by
    rw [word, List.dropWhile_cons_of_pos (by decide), ← word]
    exact word_append hne hblank (by simp [isSpace])
  rw [readRequestLine, hmethod]
  dsimp only
  rw [htarget]
  rfl

end Address

/-- Most tokens are plain. -/
theorem authorised_plain :
    let server : HttpServer := { token := "s3cret-100%_sure?=yes".toList }
    server.authorised (getRequest (targetOf (controlUrl [] 8088 server.token)) []) := by
  intro server
  exact (authorised_controlUrl server [] 8088 [] (by decide) (by decide) rfl).mpr (by decide +kernel)

/-- A token with a plus is not what the address says. -/
theorem not_authorised_plus : ¬ ∀ (server : HttpServer) (httpBind : Text) (httpPort : ℤ)
    (headers : List (Text × Text)) (_ : '/' ∉ httpBind) (_ : server.token ≠ [])
    (_ : headers.lookup "authorization".toList = none),
    server.authorised (getRequest (targetOf (controlUrl httpBind httpPort server.token)) headers) := by
  intro hall
  have hplus := hall { token := "a+b".toList } [] 8088 [] (by decide) (by decide) rfl
  exact absurd hplus (by decide +kernel)

end WebLinked.Control.Http
