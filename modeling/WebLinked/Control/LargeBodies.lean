import WebLinked.Control.HttpServer

/-!
# A body that is too large

`src/control/http_server.cpp:578–584`. The refusal is made ready and thrown away: the request goes
on to the handler without its body. What follows it is not read.
-/

namespace WebLinked.Control.Http

open WebLinked.Core

variable {server : HttpServer} {turn : ℕ → Turn} {exchange : Exchange} {buffer buffer' : Text}
  {incoming incoming' : Incoming} {left served : ℕ}

/-- The request is one whose `Content-Length` is over the limit. -/
def Exchange.TooLarge (exchange : Exchange) : Prop := maxBody < exchange.request.contentLength

instance : DecidablePred Exchange.TooLarge := fun _ ↦ Nat.decLt ..

/-- The handler is not called, and the answer is a 400 that ends the connection. -/
def Exchange.Refused (exchange : Exchange) : Prop :=
  exchange.called = false ∧ exchange.response.status = 400 ∧ exchange.keepAlive = false

/-- Who was not passed to the handler was answered a 401 or a 503. -/
theorem status_of_not_called {request : Request} (h : (server.answer served request).1 = false) :
    (server.answer served request).2.status = 401 ∨
      (server.answer served request).2.status = 503 := by
  unfold HttpServer.answer at h ⊢
  split
  · exact Or.inl rfl
  · next hauthorised =>
    rw [if_neg hauthorised] at h
    split
    · next handler hhandler =>
      rw [hhandler] at h
      cases h
    · exact Or.inr rfl

/-- A request that was read is answered, and one that is too large ends the connection. -/
theorem serveOne_answer
    (h : server.serveOne served buffer incoming = some (exchange, buffer', incoming')) :
    (∃ request, (exchange.called, exchange.response) = server.answer served request) ∧
      (exchange.TooLarge → exchange.keepAlive = false) := by
  unfold HttpServer.serveOne at h
  obtain ⟨⟨buffer₁, incoming₁⟩, -, h⟩ := Option.bind_eq_some_iff.mp h
  obtain ⟨i, -, h⟩ := Option.bind_eq_some_iff.mp h
  split at h
  · cases h
  · next line lines =>
    dsimp only at h
    split at h
    · cases h
      exact ⟨⟨_, rfl⟩, fun _ ↦ rfl⟩
    · next hsmall =>
      split at h
      · obtain ⟨⟨remainder, incoming₂⟩, -, h⟩ := Option.bind_eq_some_iff.mp h
        cases h
        exact ⟨⟨_, rfl⟩, fun hlarge ↦ absurd hlarge hsmall⟩
      · cases h
        exact ⟨⟨_, rfl⟩, fun hlarge ↦ absurd hlarge hsmall⟩

/-- A connection that serves a request has read one, and goes on if it is kept. -/
theorem serve_cons {after : List Exchange}
    (h : server.serve turn left served buffer incoming = exchange :: after) :
    ∃ left' buffer' incoming', left = left' + 1 ∧
      server.serveOne served buffer incoming = some (exchange, buffer', incoming') ∧
      after = if (turn served).sent && exchange.keepAlive then
        server.serve turn left' (served + 1) buffer' incoming' else [] := by
  cases left with
  | zero => cases h
  | succ left =>
    rw [HttpServer.serve] at h
    split at h
    · split at h
      · cases h
      · next hone =>
        cases h
        exact ⟨left, _, _, rfl, hone, rfl⟩
    · cases h

/-- After a request that is too large there is no other, and the handler was called for it or the
answer was no 400. -/
theorem serve_tooLarge {before after : List Exchange}
    (h : server.serve turn left served buffer incoming = before ++ exchange :: after)
    (hlarge : exchange.TooLarge) :
    (exchange.called = true ∨ exchange.response.status = 401 ∨ exchange.response.status = 503) ∧
      exchange.keepAlive = false ∧ after = [] := by
  induction before generalizing left served buffer incoming with
  | nil =>
    obtain ⟨left', buffer', incoming', -, hone, hafter⟩ := serve_cons h
    obtain ⟨⟨request, hanswer⟩, hclosed⟩ := serveOne_answer hone
    refine ⟨?_, hclosed hlarge, ?_⟩
    · cases hcalled : exchange.called with
      | true => exact Or.inl rfl
      | false =>
        have hresponse : exchange.response = (server.answer served request).2 :=
          congrArg Prod.snd hanswer
        rw [hresponse]
        exact Or.inr (status_of_not_called ((congrArg Prod.fst hanswer).symm.trans hcalled))
    · rw [hclosed hlarge, Bool.and_false, if_neg Bool.false_ne_true] at hafter
      exact hafter
  | cons first before ih =>
    obtain ⟨left', buffer', incoming', -, -, hrest⟩ := serve_cons h
    split at hrest
    · exact ih hrest.symm
    · exact absurd hrest (by simp)

/-- On no connection is a request that is too large refused. -/
theorem not_refused_of_tooLarge (server : HttpServer) (turn : ℕ → Turn) (incoming : Incoming)
    (before after : List Exchange) (exchange : Exchange)
    (h : server.serveConnection turn incoming = before ++ exchange :: after)
    (hlarge : exchange.TooLarge) : ¬ (exchange.Refused ∧ after = []) := by
  rintro ⟨⟨hcalled, hstatus, -⟩, -⟩
  rcases (serve_tooLarge h hlarge).1 with hcalled' | hstatus' | hstatus'
  · rw [hcalled] at hcalled'
    cases hcalled'
  · rw [hstatus] at hstatus'
    exact absurd hstatus' (by decide)
  · rw [hstatus] at hstatus'
    exact absurd hstatus' (by decide)

/-- A server that answers everything, and says that a token is missing if there is one. -/
private def answering (token : Text) : HttpServer := { token, handler := some fun _ _ ↦ {} }

/-- A request with a body that would be over the limit, and what it begins with. -/
private def oversized : Incoming :=
  ["POST /api/settings HTTP/1.1\r\nContent-Length: 9000000\r\n\r\nGET / HTTP/1.1\r\n\r\n".toList]

private theorem eq_singleton {exchanges : List Exchange} (hone : exchanges.length = 1)
    (hlarge : ∀ exchange ∈ exchanges, exchange.TooLarge) :
    ∃ exchange, exchanges = [exchange] ∧ exchange.TooLarge := by
  obtain ⟨exchange, rfl⟩ := List.length_eq_one_iff.mp hone
  exact ⟨exchange, rfl, hlarge exchange List.mem_cons_self⟩

/-- One that has no token is answered a 401. -/
theorem not_refused_unauthorised : ∃ exchange,
    (answering "secret".toList).serveConnection (fun _ ↦ {}) oversized = [] ++ [exchange] ∧
      exchange.TooLarge ∧ ¬ (exchange.Refused ∧ ([] : List Exchange) = []) := by
  obtain ⟨exchange, hserved, hlarge⟩ :=
    @eq_singleton ((answering "secret".toList).serveConnection (fun _ ↦ {}) oversized)
      (by decide +kernel) (by decide +kernel)
  exact ⟨exchange, hserved, hlarge, not_refused_of_tooLarge _ _ _ [] [] exchange hserved hlarge⟩

/-- The handler is called for a request that is too large. -/
theorem called_tooLarge : ¬ ∀ (server : HttpServer) (turn : ℕ → Turn) (incoming : Incoming)
    (before after : List Exchange) (exchange : Exchange)
    (_ : server.serveConnection turn incoming = before ++ exchange :: after)
    (_ : exchange.TooLarge), exchange.Refused ∧ after = [] := by
  intro hall
  obtain ⟨exchange, hserved, hlarge⟩ := @eq_singleton
    ((answering []).serveConnection (fun _ ↦ {}) oversized) (by decide +kernel) (by decide +kernel)
  have hcalled : ((answering []).serveConnection (fun _ ↦ {}) oversized).map (·.called) = [true] := by
    decide +kernel
  obtain ⟨⟨hnot, -⟩, -⟩ := hall _ _ _ [] [] exchange hserved hlarge
  rw [hserved, List.map_singleton, hnot] at hcalled
  exact absurd hcalled (by decide)

end WebLinked.Control.Http
