import WebLinked.Base.Machine

/-!
# The browser behind a source

`src/browser/browser_source.cpp:67–151`, `src/browser/render_client.cpp:267–296`. Calls come
from any thread and reach the browser by tasks on the CEF UI thread, which runs them in the
order they were posted; the browsers they ask for arrive, and the ones they close go, in
callbacks on that thread. `src/engine/engine.cpp:119–123` opens a source once, and
`src/engine/engine.cpp:715–768` makes its calls one after another.
-/

namespace WebLinked.Browser.BrowserSource

open WebLinked.Base

/-- `BrowserSource::Pacing`; `src/browser/browser_source.h:35`. -/
inductive Pacing where
  | kExternalBeginFrame | kInternalTimer
  deriving DecidableEq, Repr

/-- Where a browser CEF was asked for has got to: before its `OnAfterCreated`, alive, asked to
close, and after its `OnBeforeClose`. -/
inductive Stage where
  | creating | live | closing | gone
  deriving DecidableEq, Repr

/-- A browser, with the begin-frame mode it was created with and the last URL it was made to
load. -/
structure CefBrowser where
  pacing : Pacing
  url : String
  stage : Stage := .creating
  deriving DecidableEq, Repr

/-- A closure posted to the UI thread, with what it captured. -/
inductive Task where
  | reopen (existing : Nat) (pacing : Pacing) (current : String)
  | close (browser : Nat)
  | load (browser : Nat) (url : String)
  deriving DecidableEq, Repr

/-- A call under way, with what it has read so far; `ui` says its thread is the UI thread. -/
inductive Call where
  | openSet (url : String) | openPaced (url : String) (pacing : Pacing)
  | setPacing (ui : Bool) (pacing : Pacing)
  | setPacingOn (ui : Bool) (pacing : Pacing) (existing : Nat)
  | setPacingAt (ui : Bool) (pacing : Pacing) (existing : Nat) (current : String)
  | loadUrl (ui : Bool) (url : String) | loadUrlOn (ui : Bool) (url : String) (browser : Nat)
  | close (ui : Bool) | closeOn (ui : Bool) (browser : Nat)
  deriving DecidableEq, Repr

/-- The source and its client; `browser` is the client's `browser_`. Not in the code: the
calls under way, the browsers by the order they were asked for, and whether `open` and
`close` have been called. -/
structure State where
  pacing : Pacing := .kExternalBeginFrame
  url : String := ""
  browser : Option Nat := none
  browsers : List CefBrowser := []
  tasks : List Task := []
  calls : List Call := []
  opened : Bool := false
  closed : Bool := false
  deriving DecidableEq, Repr

/-- A call, the next step of one under way, the next task of the UI thread or a callback;
`created` says whether `CreateBrowser` takes the request. -/
inductive Action where
  | open (url : String)
  | setPacing (ui : Bool) (pacing : Pacing)
  | loadUrl (ui : Bool) (url : String)
  | close (ui : Bool)
  | proceed (call : Nat) (created : Bool)
  | runTask (created : Bool)
  | onAfterCreated (browser : Nat)
  | onBeforeClose (browser : Nat)
  deriving DecidableEq, Repr

/-- The call is on the UI thread. -/
def Call.ui : Call → Bool
  | .openSet _ | .openPaced _ _ => false
  | .setPacing ui _ | .setPacingOn ui _ _ | .setPacingAt ui _ _ _ | .loadUrl ui _
  | .loadUrlOn ui _ _ | .close ui | .closeOn ui _ => ui

/-- `CloseBrowser`, which only a live browser answers to. -/
def CefBrowser.close (b : CefBrowser) : CefBrowser :=
  { b with stage := if b.stage = .live then .closing else b.stage }

namespace State

/-- `createOffscreenBrowser`; `src/browser/browser_source.cpp:27`. -/
def createOffscreenBrowser (s : State) (pacing : Pacing) (url : String) (created : Bool) : State :=
  if created then { s with browsers := s.browsers ++ [{ pacing, url }] } else s

/-- `CloseBrowser` on one browser. -/
def closeBrowser (s : State) (b : Nat) : State :=
  { s with browsers := s.browsers.modify b CefBrowser.close }

/-- `LoadURL` in one browser's main frame. -/
def navigate (s : State) (b : Nat) (url : String) : State :=
  { s with browsers := s.browsers.modify b fun browser ↦ { browser with url } }

/-- What a posted closure does; `src/browser/browser_source.cpp:110–117,131–135,146–150`. -/
def perform (s : State) (created : Bool) : Task → State
  | .reopen existing pacing current =>
    (s.closeBrowser existing).createOffscreenBrowser pacing current created
  | .close b => s.closeBrowser b
  | .load b url => s.navigate b url

/-- `onUiThread`; `src/browser/browser_source.cpp:15`. -/
def onUiThread (s : State) (ui created : Bool) (task : Task) : State :=
  if ui then s.perform created task else { s with tasks := s.tasks ++ [task] }

/-- No call occupies the UI thread. -/
def uiFree (s : State) : Bool := s.calls.all fun c ↦ !c.ui

/-- A new call, on a thread that is free to make it. -/
def begin (s : State) (c : Call) : Option State :=
  if c.ui && !s.uiFree then none else some { s with calls := s.calls ++ [c] }

/-- One call reaches its next step. -/
def advance (s : State) (call : Nat) (c : Call) : State := { s with calls := s.calls.set call c }

/-- One call returns. -/
def finish (s : State) (call : Nat) : State := { s with calls := s.calls.eraseIdx call }

/-- The next step of a call; `src/browser/browser_source.cpp:67–151`. -/
def proceed (s : State) (call : Nat) (created : Bool) : Option State :=
  s.calls[call]?.map fun
    | .openSet url => s.advance call (.openPaced url s.pacing)
    | .openPaced url pacing => (s.finish call).createOffscreenBrowser pacing url created
    | .setPacing ui pacing =>
      match s.browser with
      | none => s.finish call
      | some existing => s.advance call (.setPacingOn ui pacing existing)
    | .setPacingOn ui pacing existing => s.advance call (.setPacingAt ui pacing existing s.url)
    | .setPacingAt ui pacing existing current =>
      (s.finish call).onUiThread ui created (.reopen existing pacing current)
    | .loadUrl ui url =>
      match s.browser with
      | none => s.finish call
      | some browser => s.advance call (.loadUrlOn ui url browser)
    | .loadUrlOn ui url browser => (s.finish call).onUiThread ui created (.load browser url)
    | .close ui =>
      match s.browser with
      | none => s.finish call
      | some browser => s.advance call (.closeOn ui browser)
    | .closeOn ui browser => (s.finish call).onUiThread ui created (.close browser)

/-- The UI thread runs its oldest task. -/
def runTask (s : State) (created : Bool) : Option State :=
  match s.tasks with
  | task :: tasks => some ({ s with tasks }.perform created task)
  | [] => none

/-- `RenderClient::OnAfterCreated`; `src/browser/render_client.cpp:267`. -/
def onAfterCreated (s : State) (b : Nat) : Option State := do
  let browser ← s.browsers[b]?
  if browser.stage = .creating then
    some { s with browser := some b, browsers := s.browsers.set b { browser with stage := .live } }
  else none

/-- `RenderClient::OnBeforeClose`; `src/browser/render_client.cpp:287`. -/
def onBeforeClose (s : State) (b : Nat) : Option State := do
  let browser ← s.browsers[b]?
  if browser.stage = .closing then
    some { s with
      browser := s.browser.filter (· ≠ b)
      browsers := s.browsers.set b { browser with stage := .gone } }
  else none

/-- One step of the source, its callers and the UI thread; none where it cannot happen. -/
def step (s : State) : Action → Option State
  | .open url =>
    if s.opened || s.closed then none
    else { s with url, opened := true }.begin (.openSet url)
  | .setPacing ui pacing =>
    if s.pacing = pacing then some s else { s with pacing }.begin (.setPacing ui pacing)
  | .loadUrl ui url => { s with url }.begin (.loadUrl ui url)
  | .close ui => { s with closed := true }.begin (.close ui)
  | .proceed call created => s.proceed call created
  | .runTask created => if s.uiFree then s.runTask created else none
  | .onAfterCreated b => if s.uiFree then s.onAfterCreated b else none
  | .onBeforeClose b => if s.uiFree then s.onBeforeClose b else none

/-- No call, task, creation or close is outstanding. -/
def quiescent (s : State) : Bool :=
  s.calls.isEmpty && s.tasks.isEmpty &&
    s.browsers.all fun b ↦ b.stage = .live || b.stage = .gone

/-- The browsers that exist. -/
def live (s : State) : List CefBrowser := s.browsers.filter (·.stage = .live)

end State

/-- A source from its construction on. -/
def machine : Machine State Action where
  init s := s = {}
  step := State.step

end WebLinked.Browser.BrowserSource
