import WebLinked.Control.HttpServer

/-!
# Requests are read as they were written

However a connection cuts its bytes into pieces, the buffer and what is still to come are together
what is left of the requests. So a header block ends where it was made to, its body is as long as
it says, and the next request starts after it.
-/

namespace WebLinked.Control.Http

open WebLinked.Base NumberText WebLinked.Core

/-- The end of a line. -/
def crlf : Text := ['\r', '\n']

section Texts

variable {line rest text : Text} {lines : List Text} {c : Char} {n : ℕ}

/-- Lines with what ends each but the last. -/
def joined (line : Text) (lines : List Text) : Text := line ++ lines.flatMap (crlf ++ ·)

theorem joined_cons (line next : Text) (lines : List Text) :
    joined line (next :: lines) = line ++ '\r' :: '\n' :: joined next lines := by
  simp [joined, crlf]

/-- Lines that are all ended. -/
theorem flatMap_crlf (line : Text) (lines : List Text) :
    (line :: lines).flatMap (· ++ crlf) = joined line lines ++ crlf := by
  induction lines generalizing line with
  | nil => simp [joined]
  | cons next lines ih =>
    rw [List.flatMap_cons, ih, joined_cons]
    simp [crlf]

/-- The end of a header block is not found where no line ends. -/
theorem findText_line (hline : '\r' ∉ line) (rest : Text) :
    findText headerEnd (line ++ rest) = (findText headerEnd rest).map (line.length + ·) := by
  induction line with
  | nil => simp
  | cons c line ih =>
    have hc : ¬ headerEnd.isPrefixOf (c :: (line ++ rest)) = true := by
      intro hp
      have hhead : '\r' = c := (List.cons_prefix_cons.mp (List.isPrefixOf_iff_prefix.mp hp)).1
      exact hline (hhead ▸ List.mem_cons_self)
    rw [List.cons_append, findText, if_neg hc, ih fun h ↦ hline (List.mem_cons_of_mem c h),
      Option.map_map]
    congr 1
    funext n
    simp only [Function.comp, List.length_cons]
    omega

/-- Nor where another line follows. -/
theorem findText_next (hc : c ≠ '\r') (rest : Text) :
    findText headerEnd ('\r' :: '\n' :: c :: rest) =
      (findText headerEnd (c :: rest)).map (2 + ·) := by
  have hfirst : ¬ headerEnd.isPrefixOf ('\r' :: '\n' :: c :: rest) = true := by
    intro hp
    have hprefix := List.isPrefixOf_iff_prefix.mp hp
    have hthird := (List.cons_prefix_cons.mp (List.cons_prefix_cons.mp hprefix).2).2
    exact hc (List.cons_prefix_cons.mp hthird).1.symm
  have hline : '\r' ∉ ['\n'] := by decide
  rw [findText, if_neg hfirst]
  have hrest := findText_line hline (c :: rest)
  rw [List.singleton_append] at hrest
  rw [hrest, Option.map_map]
  congr 1
  funext n
  simp only [Function.comp, List.length_singleton]
  omega

/-- The end of a header block is found after its last line. -/
theorem findText_joined (hline : '\r' ∉ line) (hlines : ∀ l ∈ lines, l ≠ [] ∧ '\r' ∉ l)
    (rest : Text) :
    findText headerEnd (joined line lines ++ (headerEnd ++ rest)) =
      some (joined line lines).length := by
  induction lines generalizing line with
  | nil =>
    have hend : findText headerEnd (headerEnd ++ rest) = some 0 := by
      change (if headerEnd.isPrefixOf (headerEnd ++ rest) then some 0 else _) = some 0
      exact if_pos (List.isPrefixOf_iff_prefix.mpr (List.prefix_append headerEnd rest))
    rw [joined, List.flatMap_nil, List.append_nil, findText_line hline, hend]
    rfl
  | cons next lines ih =>
    obtain ⟨⟨hne, hnext⟩, hothers⟩ := List.forall_mem_cons.mp hlines
    obtain ⟨c, next', rfl⟩ := List.exists_cons_of_ne_nil hne
    have hc : c ≠ '\r' := fun h ↦ hnext (h ▸ List.mem_cons_self)
    have hrest := ih hnext hothers
    have hcons : ∃ tail, joined (c :: next') lines = c :: tail := ⟨_, rfl⟩
    obtain ⟨tail, htail⟩ := hcons
    rw [joined_cons, List.append_assoc, findText_line hline, htail]
    rw [htail] at hrest
    rw [List.cons_append] at hrest
    simp only [List.cons_append]
    rw [findText_next hc, hrest]
    simp only [Option.map_some, List.length_append, List.length_cons, Option.some.injEq]
    omega

/-- A text without the delimiter is one line. -/
theorem getlines_line (hne : line ≠ []) (hline : c ∉ line) : getlines c line = [line] := by
  induction line with
  | nil => exact absurd rfl hne
  | cons x line ih =>
    have hx : x ≠ c := fun h ↦ hline (h ▸ List.mem_cons_self)
    rw [getlines, if_neg hx]
    cases line with
    | nil => rfl
    | cons y line => rw [ih (List.cons_ne_nil y line) fun h ↦ hline (List.mem_cons_of_mem x h)]

/-- A line ends at the delimiter. -/
theorem getlines_append (hline : c ∉ line) (rest : Text) :
    getlines c (line ++ c :: rest) = line :: getlines c rest := by
  induction line with
  | nil => rw [List.nil_append, getlines, if_pos rfl]
  | cons x line ih =>
    have hx : x ≠ c := fun h ↦ hline (h ▸ List.mem_cons_self)
    rw [List.cons_append, getlines, if_neg hx, ih fun h ↦ hline (List.mem_cons_of_mem x h)]

/-- The lines of a header block, each but the last with its carriage return. -/
def lined (line : Text) : List Text → List Text
  | [] => [line]
  | next :: lines => (line ++ ['\r']) :: lined next lines

/-- They are what `getline` gives. -/
theorem getlines_joined (hline : line ≠ [] ∧ '\n' ∉ line) (hlines : ∀ l ∈ lines, l ≠ [] ∧ '\n' ∉ l) :
    getlines '\n' (joined line lines) = lined line lines := by
  induction lines generalizing line with
  | nil =>
    rw [joined, List.flatMap_nil, List.append_nil]
    exact getlines_line hline.1 hline.2
  | cons next lines ih =>
    obtain ⟨hnext, hothers⟩ := List.forall_mem_cons.mp hlines
    have hreturn : '\n' ∉ line ++ ['\r'] := by
      rw [List.mem_append]
      rintro (h | h)
      · exact hline.2 h
      · exact absurd h (by decide)
    rw [joined_cons, lined, ← ih hnext hothers, ← getlines_append hreturn]
    simp

/-- A carriage return after a text is taken off. -/
theorem trim_return (text : Text) : trim (text ++ ['\r']) = trim text := by
  have hblank : isBlank '\r' = true := by decide
  rw [trim, trim, List.dropWhile_append]
  split
  · next h =>
    rw [List.isEmpty_iff.mp h]
    rfl
  · rw [List.rdropWhile_concat_pos _ _ _ hblank]

/-- A text without blanks is as it is without what `trim` takes off. -/
theorem trim_eq (htext : ∀ c ∈ text, isBlank c = false) : trim text = text := by
  cases text with
  | nil => rfl
  | cons c text =>
    rw [trim, List.dropWhile_cons_of_neg (by simp [htext c List.mem_cons_self])]
    rw [List.rdropWhile_eq_self_iff]
    intro hne
    have hlast := htext _ (List.getLast_mem hne)
    simp [hlast]

/-- A word ends at a blank, or where the text ends. -/
theorem word_append (hne : line ≠ []) (hline : ∀ c ∈ line, isSpace c = false)
    (hrest : ∀ c ∈ rest.head?, isSpace c) : word (line ++ rest) = (line, rest) := by
  obtain ⟨c, line', rfl⟩ := List.exists_cons_of_ne_nil hne
  have hc := hline c List.mem_cons_self
  have hdrop : ((c :: line') ++ rest).dropWhile isSpace = (c :: line') ++ rest := by
    rw [List.cons_append, List.dropWhile_cons_of_neg (by simp [hc])]
  obtain ⟨htake, hleft⟩ := takeWhile_append (p := (!isSpace ·))
    (fun c hc ↦ by simp [hline c hc]) rest (fun c hc ↦ by simp [hrest c hc])
  rw [word, hdrop]
  exact Prod.ext htake hleft

end Texts

section Reading

variable {head rest chunk buffer : Text} {incoming incoming' : Incoming} {n most : ℕ}

/-- A piece that is received is not empty and was to come. -/
theorem recv_eq (hmost : 0 < most) (hpieces : ∀ piece ∈ incoming, piece ≠ [])
    (hne : incoming ≠ []) :
    ∃ chunk incoming', recv most incoming = (chunk, incoming') ∧ chunk ≠ [] ∧
      chunk ++ incoming'.flatten = incoming.flatten ∧ ∀ piece ∈ incoming', piece ≠ [] := by
  obtain ⟨piece, pieces, rfl⟩ := List.exists_cons_of_ne_nil hne
  obtain ⟨hpiece, hothers⟩ := List.forall_mem_cons.mp hpieces
  rw [recv]
  split
  · exact ⟨piece, pieces, rfl, hpiece, rfl, hothers⟩
  · next hlong =>
    refine ⟨_, _, rfl, ?_, ?_, ?_⟩
    · exact fun h ↦ (List.take_eq_nil_iff.mp h).elim hmost.ne' hpiece
    · rw [List.flatten_cons, List.flatten_cons, ← List.append_assoc, List.take_append_drop]
    · refine List.forall_mem_cons.mpr ⟨fun h ↦ ?_, hothers⟩
      exact hlong (List.drop_eq_nil_iff.mp h)

/-- What is received is no more to come. -/
theorem length_recv {c : Char} (h : recv most incoming = (c :: chunk, incoming')) :
    incoming'.flatten.length < incoming.flatten.length := by
  cases incoming with
  | nil => cases h
  | cons piece pieces =>
    rw [recv] at h
    split at h
    · cases h
      simp only [List.flatten_cons, List.length_append, List.length_cons]
      omega
    · obtain ⟨htake, rfl⟩ := Prod.mk.inj h
      have hlen := congrArg List.length (List.take_append_drop most piece)
      rw [htake] at hlen
      simp only [List.length_append, List.length_cons] at hlen
      simp only [List.flatten_cons, List.length_append]
      omega

/-- More calls of `recv` than there are bytes to come are no limit for `readHeaders`. -/
theorem readHeaders_allCalls {calls : ℕ} (h : incoming.flatten.length < calls) :
    readHeaders calls buffer incoming = readHeaders (allCalls incoming) buffer incoming := by
  have hcalls (calls calls' : ℕ) (hless : incoming.flatten.length < calls)
      (hless' : incoming.flatten.length < calls') :
      readHeaders calls buffer incoming = readHeaders calls' buffer incoming := by
    clear h
    induction calls generalizing calls' buffer incoming with
    | zero => exact absurd hless (Nat.not_lt_zero _)
    | succ calls ih =>
      cases calls' with
      | zero => exact absurd hless' (Nat.not_lt_zero _)
      | succ calls' =>
        rw [readHeaders, readHeaders]
        cases hrecv : recv 4096 incoming with
        | mk chunk incoming' =>
          cases chunk with
          | nil => rfl
          | cons c chunk =>
            have hrest := length_recv hrecv
            dsimp only
            rw [ih calls' (by omega) (by omega)]
  exact hcalls calls _ h (Nat.lt_succ_self _)

/-- Nor for `readExactly`. -/
theorem readExactly_allCalls {wanted calls : ℕ} (h : incoming.flatten.length < calls) :
    readExactly wanted calls buffer incoming =
      readExactly wanted (allCalls incoming) buffer incoming := by
  have hcalls (calls calls' : ℕ) (hless : incoming.flatten.length < calls)
      (hless' : incoming.flatten.length < calls') :
      readExactly wanted calls buffer incoming = readExactly wanted calls' buffer incoming := by
    clear h
    induction calls generalizing calls' buffer incoming with
    | zero => exact absurd hless (Nat.not_lt_zero _)
    | succ calls ih =>
      cases calls' with
      | zero => exact absurd hless' (Nat.not_lt_zero _)
      | succ calls' =>
        rw [readExactly, readExactly]
        cases hrecv : recv (min 4096 (wanted - buffer.length)) incoming with
        | mk chunk incoming' =>
          cases chunk with
          | nil => rfl
          | cons c chunk =>
            have hrest := length_recv hrecv
            dsimp only
            rw [ih calls' (by omega) (by omega)]
  exact hcalls calls _ h (Nat.lt_succ_self _)

/-- A header block has been received when its end is found, and not before. -/
theorem readHeaders_eq (hfind : ∀ rest, findText headerEnd (head ++ rest) = some n)
    (hn : n + 4 = head.length) (hfits : head.length ≤ 64 * 1024)
    (hpieces : ∀ piece ∈ incoming, piece ≠ []) (h : buffer ++ incoming.flatten = head ++ rest)
    (calls : ℕ) (hcalls : incoming.flatten.length < calls) :
    ∃ tail incoming', readHeaders calls buffer incoming = some (head ++ tail, incoming') ∧
      tail ++ incoming'.flatten = rest ∧ ∀ piece ∈ incoming', piece ≠ [] := by
  induction calls generalizing buffer incoming with
  | zero => omega
  | succ calls ih =>
    rw [readHeaders]
    by_cases hlong : head.length ≤ buffer.length
    · obtain ⟨tail, rfl⟩ : ∃ tail, buffer = head ++ tail := by
        have hprefix : head <+: buffer := List.prefix_of_prefix_length_le ⟨rest, h.symm⟩
          (List.prefix_append buffer incoming.flatten) hlong
        exact ⟨_, (List.prefix_iff_eq_append.mp hprefix).symm⟩
      rw [if_pos (by rw [hfind, Option.isSome_some])]
      rw [List.append_assoc] at h
      exact ⟨tail, incoming, rfl, List.append_cancel_left h, hpieces⟩
    · have hnot : ¬ (findText headerEnd buffer).isSome = true := by
        intro hsome
        obtain ⟨i, hi⟩ := Option.isSome_iff_exists.mp hsome
        have hsame := findText_append hi incoming.flatten
        rw [h, hfind] at hsame
        cases hsame
        have hle := add_length_le_of_findText hi
        change n + 4 ≤ buffer.length at hle
        omega
      have hne : incoming ≠ [] := by
        rintro rfl
        have hlen := congrArg List.length h
        simp only [List.flatten_nil, List.append_nil, List.length_append] at hlen
        omega
      obtain ⟨chunk, incoming', hrecv, hchunk, hsame, hpieces'⟩ :=
        recv_eq (by omega : 0 < 4096) hpieces hne
      rw [if_neg hnot, if_neg (by omega), hrecv]
      obtain ⟨c, chunk, rfl⟩ := List.exists_cons_of_ne_nil hchunk
      have hlen := congrArg List.length hsame
      rw [List.length_append, List.length_cons] at hlen
      refine ih hpieces' ?_ (by omega)
      rw [List.append_assoc, hsame, h]

/-- A body is received as far as it goes. -/
theorem readExactly_eq {wanted : ℕ} (hwanted : wanted ≤ rest.length)
    (hpieces : ∀ piece ∈ incoming, piece ≠ []) (h : buffer ++ incoming.flatten = rest)
    (calls : ℕ) (hcalls : incoming.flatten.length < calls) :
    ∃ buffer' incoming', readExactly wanted calls buffer incoming = some (buffer', incoming') ∧
      wanted ≤ buffer'.length ∧ buffer' ++ incoming'.flatten = rest ∧
      ∀ piece ∈ incoming', piece ≠ [] := by
  induction calls generalizing buffer incoming with
  | zero => omega
  | succ calls ih =>
    rw [readExactly]
    by_cases hlong : wanted ≤ buffer.length
    · rw [if_pos hlong]
      exact ⟨buffer, incoming, rfl, hlong, h, hpieces⟩
    · have hne : incoming ≠ [] := by
        rintro rfl
        rw [List.flatten_nil, List.append_nil] at h
        rw [h] at hlong
        exact hlong hwanted
      obtain ⟨chunk, incoming', hrecv, hchunk, hsame, hpieces'⟩ :=
        recv_eq (by omega : 0 < min 4096 (wanted - buffer.length)) hpieces hne
      rw [if_neg hlong, hrecv]
      obtain ⟨c, chunk, rfl⟩ := List.exists_cons_of_ne_nil hchunk
      have hlen := congrArg List.length hsame
      rw [List.length_append, List.length_cons] at hlen
      refine ih hpieces' ?_ (by omega)
      rw [List.append_assoc, hsame, h]

end Reading

/-- A request as a client writes it. -/
structure Sent where
  method : Text
  path : Text
  query : Option Text := none
  version : Text := "HTTP/1.1".toList
  headers : List (Text × Text) := []
  body : Text := []

namespace Sent

/-- What is asked for, with the query. -/
def target (r : Sent) : Text := r.path ++ (r.query.map ('?' :: ·)).getD []

/-- The first line. -/
def requestLine (r : Sent) : Text := r.method ++ ' ' :: (r.target ++ ' ' :: r.version)

/-- The line of a header. -/
def headerLine (header : Text × Text) : Text := header.1 ++ ':' :: header.2

/-- The header block, with the empty line that ends it. -/
def head (r : Sent) : Text :=
  (r.requestLine :: r.headers.map headerLine).flatMap (· ++ crlf) ++ crlf

/-- The whole request. -/
def bytes (r : Sent) : Text := r.head ++ r.body

/-- The request that the handler is to be called with: names of headers in lower case, values
trimmed, of two with one name the later. -/
def request (r : Sent) : Request where
  method := r.method
  path := r.path
  query := r.query.getD []
  headers := r.headers.foldl (fun acc h ↦ setHeader (lowercase h.1) (trim h.2) acc) []
  body := r.body

/-- A number in decimal. -/
def IsDecimal (text : Text) (n : ℕ) : Prop :=
  text ≠ [] ∧ (∀ c ∈ text, c.isDigit) ∧ Nat.ofDigitChars 10 text 0 = n

/-- A request line and headers of at most 64 KiB, and a body of at most 8 MiB, as long as the headers
say. -/
structure WellFormed (r : Sent) : Prop where
  method : r.method ≠ [] ∧ ∀ c ∈ r.method, isSpace c = false
  path : r.path ≠ [] ∧ ∀ c ∈ r.path, isSpace c = false ∧ c ≠ '?'
  query : ∀ query ∈ r.query, ∀ c ∈ query, isSpace c = false
  version : ∀ c ∈ r.version, c ≠ '\r' ∧ c ≠ '\n'
  names : ∀ h ∈ r.headers, h.1 ≠ [] ∧ ∀ c ∈ h.1, c ≠ ':' ∧ isBlank c = false
  values : ∀ h ∈ r.headers, ∀ c ∈ h.2, c ≠ '\r' ∧ c ≠ '\n'
  fits : r.head.length ≤ 64 * 1024
  length : ∀ h ∈ r.headers, lowercase h.1 = "content-length".toList →
    IsDecimal (trim h.2) r.body.length
  hasLength : r.body ≠ [] → ∃ h ∈ r.headers, lowercase h.1 = "content-length".toList
  small : r.body.length ≤ maxBody

/-- A `Connection` header that has the letters "close" in it. -/
def hasClose (r : Sent) : Bool :=
  r.headers.any fun h ↦ lowercase h.1 = "connection".toList &&
    (findText "close".toList (lowercase (trim h.2))).isSome

end Sent

section Parsing

variable {r : Sent}

/-- A space is not part of a line's end. -/
theorem ne_of_not_isSpace {c : Char} (h : isSpace c = false) : c ≠ '\r' ∧ c ≠ '\n' :=
  ⟨fun hc ↦ absurd (hc ▸ h) (by decide), fun hc ↦ absurd (hc ▸ h) (by decide)⟩

theorem ne_of_not_isBlank {c : Char} (h : isBlank c = false) : c ≠ '\r' ∧ c ≠ '\n' :=
  ⟨fun hc ↦ absurd (hc ▸ h) (by decide), fun hc ↦ absurd (hc ▸ h) (by decide)⟩

/-- What is asked for is one word. -/
theorem Sent.WellFormed.target (h : r.WellFormed) :
    r.target ≠ [] ∧ ∀ c ∈ r.target, isSpace c = false := by
  refine ⟨fun hnil ↦ h.path.1 (List.append_eq_nil_iff.mp hnil).1, fun c hc ↦ ?_⟩
  rcases List.mem_append.mp hc with hc | hc
  · exact (h.path.2 c hc).1
  · cases hq : r.query with
    | none =>
      rw [hq] at hc
      cases hc
    | some query =>
      rw [hq] at hc
      rcases List.mem_cons.mp hc with rfl | hc
      · decide
      · exact h.query query hq c hc

/-- Lines are not empty and have no line end in them. -/
theorem Sent.WellFormed.requestLine (h : r.WellFormed) :
    r.requestLine ≠ [] ∧ ∀ c ∈ r.requestLine, c ≠ '\r' ∧ c ≠ '\n' := by
  refine ⟨by simp [Sent.requestLine], fun c hc ↦ ?_⟩
  rcases List.mem_append.mp hc with hc | hc
  · exact ne_of_not_isSpace (h.method.2 c hc)
  · rcases List.mem_cons.mp hc with rfl | hc
    · decide
    · rcases List.mem_append.mp hc with hc | hc
      · exact ne_of_not_isSpace (h.target.2 c hc)
      · rcases List.mem_cons.mp hc with rfl | hc
        · decide
        · exact h.version c hc

theorem Sent.WellFormed.headerLine (h : r.WellFormed) :
    ∀ l ∈ r.headers.map Sent.headerLine, l ≠ [] ∧ ∀ c ∈ l, c ≠ '\r' ∧ c ≠ '\n' := by
  intro l hl
  obtain ⟨header, hheader, rfl⟩ := List.mem_map.mp hl
  refine ⟨by simp [Sent.headerLine], fun c hc ↦ ?_⟩
  rcases List.mem_append.mp hc with hc | hc
  · exact ne_of_not_isBlank ((h.names header hheader).2 c hc).2
  · rcases List.mem_cons.mp hc with rfl | hc
    · decide
    · exact h.values header hheader c hc

/-- The lines of the header block. -/
def Sent.block (r : Sent) : Text := joined r.requestLine (r.headers.map Sent.headerLine)

theorem head_eq (r : Sent) : r.head = r.block ++ headerEnd := by
  rw [Sent.head, flatMap_crlf, List.append_assoc]
  rfl

/-- The end of the header block is found, whatever comes after. -/
theorem findText_head (h : r.WellFormed) (rest : Text) :
    findText headerEnd (r.head ++ rest) = some r.block.length := by
  rw [head_eq, List.append_assoc]
  apply findText_joined
  · exact fun hc ↦ (h.requestLine.2 '\r' hc).1 rfl
  · exact fun l hl ↦ ⟨(h.headerLine l hl).1, fun hc ↦ ((h.headerLine l hl).2 '\r' hc).1 rfl⟩

theorem getlines_block (h : r.WellFormed) :
    getlines '\n' r.block = lined r.requestLine (r.headers.map Sent.headerLine) := by
  apply getlines_joined
  · exact ⟨h.requestLine.1, fun hc ↦ (h.requestLine.2 '\n' hc).2 rfl⟩
  · exact fun l hl ↦ ⟨(h.headerLine l hl).1, fun hc ↦ ((h.headerLine l hl).2 '\n' hc).2 rfl⟩

/-- The request line is read with or without its carriage return. -/
theorem readRequestLine_eq (h : r.WellFormed) (ending : Text) :
    readRequestLine (r.requestLine ++ ending) =
      { method := r.method, path := r.path, query := r.query.getD [] } := by
  have hmethod : word (r.requestLine ++ ending) =
      (r.method, ' ' :: (r.target ++ ' ' :: (r.version ++ ending))) := by
    have hline : r.requestLine ++ ending =
        r.method ++ ' ' :: (r.target ++ ' ' :: (r.version ++ ending)) := by
      simp [Sent.requestLine]
    rw [hline]
    exact word_append h.method.1 h.method.2 (by simp [isSpace])
  have htarget : word (' ' :: (r.target ++ ' ' :: (r.version ++ ending))) =
      (r.target, ' ' :: (r.version ++ ending)) := by
    have hskip (text : Text) : word (' ' :: text) = word text := by
      rw [word, word, List.dropWhile_cons_of_pos (by decide)]
    rw [hskip]
    exact word_append h.target.1 h.target.2 (by simp [isSpace])
  have hpath : ∀ c ∈ r.path, decide (c ≠ '?') = true := fun c hc ↦ decide_eq_true (h.path.2 c hc).2
  have hsplit := takeWhile_append (p := (decide <| · ≠ '?')) hpath
    ((r.query.map ('?' :: ·)).getD []) (by cases r.query <;> simp)
  rw [readRequestLine, hmethod]
  dsimp only
  rw [htarget]
  dsimp only
  rw [Sent.target, hsplit.1, hsplit.2]
  cases r.query <;> rfl

/-- One header. -/
def readSent (acc : List (Text × Text) × Bool) (h : Text × Text) : List (Text × Text) × Bool :=
  (setHeader (lowercase h.1) (trim h.2) acc.1,
    acc.2 && !(lowercase h.1 = "connection".toList &&
      (findText "close".toList (lowercase (trim h.2))).isSome))

/-- The line of a header is read as that header, with or without its carriage return. -/
theorem readHeader_eq {header : Text × Text} (hname : ∀ c ∈ header.1, c ≠ ':' ∧ isBlank c = false)
    (acc : List (Text × Text) × Bool) :
    readHeader acc (Sent.headerLine header) = readSent acc header ∧
      readHeader acc (Sent.headerLine header ++ ['\r']) = readSent acc header := by
  have hread (value : Text) (hvalue : trim value = trim header.2) :
      readHeader acc (header.1 ++ ':' :: value) = readSent acc header := by
    have hsplit := takeWhile_append (p := (decide <| · ≠ ':'))
      (fun c hc ↦ decide_eq_true (hname c hc).1) (':' :: value) (by simp)
    rw [readHeader, if_pos (by simp), hsplit.1, hsplit.2, List.tail_cons, hvalue,
      trim_eq fun c hc ↦ (hname c hc).2]
    rfl
  refine ⟨hread header.2 rfl, ?_⟩
  rw [Sent.headerLine, List.append_assoc, List.cons_append]
  exact hread _ (trim_return header.2)

/-- The lines of the headers are read as the headers. -/
theorem foldl_lined {header : Text × Text} {headers : List (Text × Text)}
    (hnames : ∀ h ∈ header :: headers, ∀ c ∈ h.1, c ≠ ':' ∧ isBlank c = false)
    (acc : List (Text × Text) × Bool) :
    (lined (Sent.headerLine header) (headers.map Sent.headerLine)).foldl readHeader acc =
      (header :: headers).foldl readSent acc := by
  induction headers generalizing header acc with
  | nil => exact (readHeader_eq (hnames header List.mem_cons_self) acc).1
  | cons next headers ih =>
    obtain ⟨hheader, hothers⟩ := List.forall_mem_cons.mp hnames
    rw [List.map_cons, lined, List.foldl_cons, (readHeader_eq hheader acc).2, ih hothers]
    rfl

/-- What is read of the headers, and whether the connection is kept. -/
theorem foldl_readSent (headers : List (Text × Text)) (acc : List (Text × Text)) (keep : Bool) :
    headers.foldl readSent (acc, keep) =
      (headers.foldl (fun acc h ↦ setHeader (lowercase h.1) (trim h.2) acc) acc,
        keep && !headers.any fun h ↦ lowercase h.1 = "connection".toList &&
          (findText "close".toList (lowercase (trim h.2))).isSome) := by
  induction headers generalizing acc keep with
  | nil => simp
  | cons h headers ih =>
    rw [List.foldl_cons, readSent, ih, List.foldl_cons, List.any_cons, Bool.not_or, Bool.and_assoc]

/-- The header block is read as it was written. -/
theorem getlines_read (h : r.WellFormed) :
    ∃ line lines, getlines '\n' r.block = line :: lines ∧
      { readRequestLine line with headers := (lines.foldl readHeader ([], true)).1 } =
        { r.request with body := [] } ∧
      (lines.foldl readHeader ([], true)).2 = !r.hasClose := by
  rw [getlines_block h]
  have hline := readRequestLine_eq h
  cases hheaders : r.headers with
  | nil =>
    refine ⟨_, _, rfl, ?_, ?_⟩
    · have hline := hline []
      rw [List.append_nil] at hline
      rw [hline, Sent.request, hheaders]
      rfl
    · rw [Sent.hasClose, hheaders]
      rfl
  | cons header headers =>
    have hnames : ∀ h ∈ header :: headers, ∀ c ∈ h.1, c ≠ ':' ∧ isBlank c = false := by
      rw [← hheaders]
      exact fun x hx ↦ (h.names x hx).2
    refine ⟨_, _, rfl, ?_, ?_⟩
    · rw [hline, foldl_lined hnames, foldl_readSent, Sent.request, hheaders]
    · rw [foldl_lined hnames, foldl_readSent, Sent.hasClose, hheaders]
      rfl

/-- What is set under a key is found, and other keys as before. -/
theorem lookup_setHeader (key value key' : Text) (headers : List (Text × Text)) :
    (setHeader key value headers).lookup key' =
      if key' = key then some value else headers.lookup key' := by
  induction headers with
  | nil =>
    rw [setHeader, List.lookup_cons, List.lookup_nil]
    by_cases h : key' = key
    · rw [if_pos h, beq_iff_eq.mpr h]
    · rw [if_neg h, beq_eq_false_iff_ne.mpr h]
  | cons header headers ih =>
    obtain ⟨k, v⟩ := header
    rw [setHeader]
    by_cases hk : k = key
    · subst hk
      rw [if_pos rfl, List.lookup_cons, List.lookup_cons]
      by_cases h : key' = k
      · rw [if_pos h, beq_iff_eq.mpr h]
      · rw [if_neg h, beq_eq_false_iff_ne.mpr h]
    · rw [if_neg hk, List.lookup_cons, List.lookup_cons, ih]
      by_cases h : key' = key
      · rw [if_pos h, if_pos h, beq_eq_false_iff_ne.mpr fun h' ↦ hk (h'.symm.trans h)]
      · rw [if_neg h, if_neg h]

/-- What is found under a key is the value of a header with that name, if there is one. -/
theorem lookup_foldl (key : Text) (headers acc : List (Text × Text)) :
    let found := headers.foldl (fun acc h ↦ setHeader (lowercase h.1) (trim h.2) acc) acc
    (found.lookup key = acc.lookup key ∧ ∀ h ∈ headers, lowercase h.1 ≠ key) ∨
      ∃ h ∈ headers, lowercase h.1 = key ∧ found.lookup key = some (trim h.2) := by
  induction headers generalizing acc with
  | nil => exact Or.inl ⟨rfl, by simp⟩
  | cons header headers ih =>
    rcases ih (setHeader (lowercase header.1) (trim header.2) acc) with ⟨hfound, hnone⟩ | hlater
    · rw [lookup_setHeader] at hfound
      by_cases hkey : key = lowercase header.1
      · rw [if_pos hkey] at hfound
        exact Or.inr ⟨header, List.mem_cons_self, hkey.symm, hfound⟩
      · rw [if_neg hkey] at hfound
        exact Or.inl ⟨hfound, List.forall_mem_cons.mpr ⟨Ne.symm hkey, hnone⟩⟩
    · obtain ⟨h, hmem, hlater⟩ := hlater
      exact Or.inr ⟨h, List.mem_cons_of_mem _ hmem, hlater⟩

/-- A decimal number is read as itself. -/
theorem strtoul_eq {text : Text} {n : ℕ} (h : Sent.IsDecimal text n) (hn : n < 2 ^ 64) :
    strtoul text = n := by
  obtain ⟨hne, hdigits, hvalue⟩ := h
  have hsign := @takeSign_sign false text fun c hc ↦ hdigits c (List.mem_of_mem_head? hc)
  have htake : text.takeWhile Char.isDigit = text := List.takeWhile_eq_self_iff.mpr hdigits
  rw [sign, if_neg Bool.false_ne_true, List.nil_append] at hsign
  rw [strtoul, hsign]
  dsimp only
  rw [htake, hvalue, if_neg (by omega), if_neg Bool.false_ne_true]

/-- The length of a body is what the headers say. -/
theorem contentLength_eq (h : r.WellFormed) :
    ({ r.request with body := [] } : Request).contentLength = r.body.length := by
  rw [Request.contentLength]
  rcases lookup_foldl "content-length".toList r.headers [] with ⟨hfound, hnone⟩ | ⟨x, hx, hname, hfound⟩
  · have hbody : r.body = [] := by
      by_contra hne
      obtain ⟨x, hx, hname⟩ := h.hasLength hne
      exact hnone x hx hname
    dsimp only [Sent.request]
    rw [hfound, hbody]
    rfl
  · have hsmall := h.small
    have hlt : r.body.length < 2 ^ 64 := by
      rw [maxBody] at hsmall
      omega
    dsimp only [Sent.request]
    rw [hfound]
    exact strtoul_eq (h.length x hx hname) hlt

end Parsing

section Serving

variable {server : HttpServer} {r : Sent} {rest buffer : Text} {incoming : Incoming} {served : ℕ}

/-- A request is read whole, and what comes after it is left. -/
theorem serveOne_eq (h : r.WellFormed) (hpieces : ∀ piece ∈ incoming, piece ≠ [])
    (hbytes : buffer ++ incoming.flatten = r.bytes ++ rest) :
    ∃ buffer' incoming', server.serveOne served buffer incoming =
        some ({ request := r.request, called := (server.answer served r.request).1,
                response := (server.answer served r.request).2, keepAlive := !r.hasClose },
          buffer', incoming') ∧
      buffer' ++ incoming'.flatten = rest ∧ ∀ piece ∈ incoming', piece ≠ [] := by
  have hlen : r.block.length + 4 = r.head.length := by
    rw [head_eq, List.length_append]
    rfl
  rw [Sent.bytes, List.append_assoc] at hbytes
  obtain ⟨tail, incoming₁, hheaders, htail, hpieces₁⟩ := readHeaders_eq (findText_head h) hlen h.fits
    hpieces hbytes (allCalls incoming) (Nat.lt_succ_self _)
  obtain ⟨line, lines, hlines, hrequest, hkeep⟩ := getlines_read h
  have hblock : (r.head ++ tail).take r.block.length = r.block := by
    rw [head_eq, List.append_assoc, List.take_left]
  have hdrop : (r.head ++ tail).drop (r.block.length + 4) = tail := by rw [hlen, List.drop_left]
  have hlength := contentLength_eq h
  have hsmall : ¬ maxBody < r.body.length := Nat.not_lt.mpr h.small
  rw [HttpServer.serveOne, hheaders]
  simp only [Option.bind_eq_bind, Option.bind_some, findText_head h, hblock, hdrop, hlines]
  rw [hrequest, hlength, hkeep, if_neg hsmall]
  have hbody (body : Text) (hbody : body = r.body) :
      { readRequestLine line with headers := (lines.foldl readHeader ([], true)).1, body } =
        r.request := by
    have hsame := congrArg (fun q : Request ↦ { q with body }) hrequest
    rw [hbody] at hsame ⊢
    exact hsame
  by_cases hempty : r.body = []
  · have hnone : ({ r.request with body := [] } : Request) = r.request := by
      rw [Sent.request, hempty]
    rw [hempty, List.nil_append] at htail
    rw [if_neg (by rw [hempty]; exact Nat.lt_irrefl 0), hnone]
    exact ⟨tail, incoming₁, rfl, htail, hpieces₁⟩
  · have hwanted : r.body.length ≤ (r.body ++ rest).length := by
      rw [List.length_append]
      omega
    obtain ⟨buffer₂, incoming₂, hexactly, hlong, hsame, hpieces₂⟩ := readExactly_eq hwanted hpieces₁
      htail (allCalls incoming₁) (Nat.lt_succ_self _)
    obtain ⟨after, rfl⟩ : ∃ after, buffer₂ = r.body ++ after := by
      have hprefix : r.body <+: buffer₂ := List.prefix_of_prefix_length_le ⟨rest, hsame.symm⟩
        (List.prefix_append buffer₂ incoming₂.flatten) hlong
      exact ⟨_, (List.prefix_iff_eq_append.mp hprefix).symm⟩
    rw [List.append_assoc] at hsame
    rw [if_pos (List.length_pos_iff.mpr hempty), hexactly]
    simp only [Option.bind_some]
    rw [hbody _ List.take_left, List.drop_left]
    exact ⟨after, incoming₂, rfl, List.append_cancel_left hsame, hpieces₂⟩

/-- Where nothing comes any more no request is read. -/
theorem serveOne_nil (hpieces : ∀ piece ∈ incoming, piece ≠ [])
    (hbytes : buffer ++ incoming.flatten = []) : server.serveOne served buffer incoming = none := by
  obtain ⟨rfl, hflatten⟩ := List.append_eq_nil_iff.mp hbytes
  have hincoming : incoming = [] := by
    rw [List.eq_nil_iff_forall_not_mem]
    exact fun piece hpiece ↦ hpieces piece hpiece (List.flatten_eq_nil_iff.mp hflatten piece hpiece)
  rw [hincoming]
  rfl

/-- A server that asks for no token calls its handler. -/
theorem answer_called (htoken : server.token = []) {handler : ℕ → Request → Response}
    (hhandler : server.handler = some handler) (request : Request) :
    server.answer served request = (true, handler served request) := by
  have hauthorised : server.authorised request = true := by simp [HttpServer.authorised, htoken]
  rw [HttpServer.answer, hauthorised, hhandler]
  rfl

/-- Every request is served in its turn, up to as many as a connection may have. -/
theorem serve_eq (htoken : server.token = []) {handler : ℕ → Request → Response}
    (hhandler : server.handler = some handler) {turn : ℕ → Turn}
    (hturn : ∀ i, (turn i).running ∧ (turn i).sent) {requests : List Sent}
    (hwell : ∀ r ∈ requests, r.WellFormed) (hkeep : ∀ r ∈ requests.dropLast, r.hasClose = false)
    {left : ℕ} (hleft : requests.length ≤ left) (hpieces : ∀ piece ∈ incoming, piece ≠ [])
    (hbytes : buffer ++ incoming.flatten = requests.flatMap Sent.bytes) :
    calls (server.serve turn left served buffer incoming) = requests.map Sent.request := by
  induction requests generalizing left served buffer incoming with
  | nil =>
    cases left with
    | zero => rfl
    | succ left =>
      rw [HttpServer.serve, if_pos (hturn served).1, serveOne_nil hpieces hbytes]
      rfl
  | cons r requests ih =>
    obtain ⟨hr, hothers⟩ := List.forall_mem_cons.mp hwell
    cases left with
    | zero => exact absurd hleft (Nat.not_succ_le_zero _)
    | succ left =>
      rw [List.flatMap_cons] at hbytes
      obtain ⟨buffer', incoming', hone, hrest, hpieces'⟩ :=
        @serveOne_eq server r _ buffer incoming served hr hpieces hbytes
      rw [HttpServer.serve, if_pos (hturn served).1, hone]
      rw [answer_called htoken hhandler]
      dsimp only
      rw [(hturn served).2, Bool.true_and, calls, List.filter_cons_of_pos rfl, List.map_cons,
        List.map_cons]
      congr 1
      cases requests with
      | nil =>
        -- Nothing is left, whether the connection is kept or not.
        split
        · exact ih hothers (by simp) (Nat.zero_le _) hpieces' hrest
        · rfl
      | cons next requests =>
        have hclose : r.hasClose = false := hkeep r (by simp)
        rw [hclose, Bool.not_false, if_pos rfl]
        refine ih hothers (fun x hx ↦ hkeep x ?_) (Nat.le_of_succ_le_succ hleft) hpieces' hrest
        rw [List.dropLast_cons_of_ne_nil (List.cons_ne_nil next requests)]
        exact List.mem_cons_of_mem r hx

end Serving

/-- However the bytes of at most 200 requests arrive, the handler is called once for each, in order and
with what was written, if none but the last has "close" in a `Connection` header. -/
theorem calls_serveConnection (server : HttpServer) (handler : ℕ → Request → Response)
    (htoken : server.token = []) (hhandler : server.handler = some handler) (turn : ℕ → Turn)
    (hturn : ∀ i, (turn i).running ∧ (turn i).sent) (requests : List Sent)
    (hcount : requests.length ≤ 200) (hwell : ∀ r ∈ requests, r.WellFormed)
    (hkeep : ∀ r ∈ requests.dropLast, r.hasClose = false) (incoming : Incoming)
    (hpieces : ∀ piece ∈ incoming, piece ≠ [])
    (hbytes : incoming.flatten = requests.flatMap Sent.bytes) :
    calls (server.serveConnection turn incoming) = requests.map Sent.request :=
  serve_eq htoken hhandler hturn hwell hkeep hcount hpieces hbytes

/-- What holds of every character of a text is decided along the text. -/
local instance (priority := high) decidableForallMem {p : Char → Prop} [DecidablePred p] (text : List Char) :
    Decidable (∀ c ∈ text, p c) :=
  List.decidableBAll p text

/-- A server that answers everything with a 200. -/
private def open200 : HttpServer where handler := some fun _ _ ↦ {}

/-- A request with a body that looks like the end of a header block, and one that ends the
connection. -/
private def twoSent : List Sent :=
  [{ method := "POST".toList, path := "/api/url".toList, query := some "a=b".toList,
     headers := [("Content-Length".toList, " 6 ".toList)], body := "a\r\n\r\nb".toList },
   { method := "GET".toList, path := "/".toList, headers := [("Connection".toList, "Close".toList)] }]

private theorem wellFormed_twoSent : ∀ r ∈ twoSent, r.WellFormed := by
  intro r hr
  simp only [twoSent, List.mem_cons, List.not_mem_nil, or_false] at hr
  rcases hr with rfl | rfl <;>
    exact ⟨by decide, by decide, by decide, by decide, by decide, by decide, by decide +kernel,
      by unfold Sent.IsDecimal; decide +kernel, by decide +kernel, by decide⟩

/-- They are read from pieces that end within a line's end and within the body. -/
theorem calls_twoSent :
    let bytes := twoSent.flatMap Sent.bytes
    let incoming := [bytes.take 28, (bytes.drop 28).take 27, bytes.drop 55]
    calls (open200.serveConnection (fun _ ↦ {}) incoming) = twoSent.map Sent.request :=
  calls_serveConnection open200 _ rfl rfl (fun _ ↦ {}) (fun _ ↦ ⟨rfl, rfl⟩) twoSent (by decide)
    wellFormed_twoSent (by decide +kernel) _ (by decide +kernel) (by decide +kernel)

/-- A `Connection` header one of whose options is "close". -/
def Sent.asksToClose (r : Sent) : Bool :=
  r.headers.any fun h ↦ lowercase h.1 = "connection".toList &&
    (getlines ',' (lowercase h.2)).any (trim · = "close".toList)

/-- A connection is ended by an option that only has "close" in its name. -/
theorem calls_ne_of_option : ¬ ∀ (server : HttpServer) (handler : ℕ → Request → Response)
    (_ : server.token = []) (_ : server.handler = some handler) (turn : ℕ → Turn)
    (_ : ∀ i, (turn i).running ∧ (turn i).sent) (requests : List Sent) (_ : requests.length ≤ 200)
    (_ : ∀ r ∈ requests, r.WellFormed) (_ : ∀ r ∈ requests.dropLast, r.asksToClose = false)
    (incoming : Incoming) (_ : ∀ piece ∈ incoming, piece ≠ [])
    (_ : incoming.flatten = requests.flatMap Sent.bytes),
    calls (server.serveConnection turn incoming) = requests.map Sent.request := by
  intro hall
  let sent : Sent :=
    { method := "GET".toList, path := "/".toList,
      headers := [("Connection".toList, "x-close-reason".toList)] }
  have hwell : sent.WellFormed := ⟨by decide, by decide, by decide, by decide, by decide, by decide,
    by decide +kernel, by unfold Sent.IsDecimal; decide +kernel, by decide, by decide⟩
  have hcalls := hall open200 _ rfl rfl (fun _ ↦ {}) (fun _ ↦ ⟨rfl, rfl⟩) [sent, sent] (by decide)
    (by simpa using hwell) (by decide +kernel) [[sent, sent].flatMap Sent.bytes] (by decide +kernel)
    (by simp)
  have hone : (calls (open200.serveConnection (fun _ ↦ {})
      [[sent, sent].flatMap Sent.bytes])).length = 1 := by decide +kernel
  rw [hcalls] at hone
  exact absurd hone (by decide)

end WebLinked.Control.Http
