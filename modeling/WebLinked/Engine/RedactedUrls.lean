import Mathlib
import WebLinked.Engine.StateReport

/-!
# What a written url says of its key

`src/core/stream_args.cpp:38–55`, `src/outputs/stream_output.cpp:508–510,587–593`. Two streams with
one address and two keys are started and asked for their status. The cut is at the last slash, so a
key that has slashes is hidden from its last one on, and one that ends in a slash is not hidden.
-/

namespace WebLinked.Engine.RedactedUrls

open WebLinked.Core Json OutputList StateReport

/-- A url of the form `scheme://host/app/key`. -/
def streamUrl (scheme host app key : List Char) : String :=
  String.ofList (scheme ++ "://".toList ++ host ++ '/' :: app ++ '/' :: key)

/-- `c_str`, as `%s` reads it. -/
def cString (text : String) : String := String.ofList (text.toList.takeWhile (· ≠ Char.ofNat 0))

/-- What `start` logs; `src/outputs/stream_output.cpp:508`. -/
def startLine (name url : String) (pid : Int) : String :=
  "stream '" ++ cString name ++ "': publishing to " ++ cString (redactStreamUrl url) ++
    " (ffmpeg pid " ++ toString pid ++ ")"

/-- The options of an output with a url among them. -/
def withUrl (spec : OutputSpec) (url : String) : OutputSpec :=
  { spec with options := spec.options.set "url" (.string url) }

/-- Nothing written down tells two urls apart. -/
structure WrittenAlike (url url' : String) : Prop where
  redacted : redactStreamUrl url = redactStreamUrl url'
  started : ∀ name pid, startLine name url pid = startLine name url' pid
  status : ∀ spec figures,
    streamStatus (withUrl spec url) figures = streamStatus (withUrl spec url') figures

/-- A key as far as its last slash, which is in it; nothing if it has none. -/
def folder (key : List Char) : List Char := key.rdropWhile (· ≠ '/')

variable {scheme host app key : List Char}

theorem exists_findText (scheme rest : List Char) :
    ∃ n ≤ scheme.length, findText "://".toList (scheme ++ "://".toList ++ rest) = some n := by
  induction scheme with
  | nil => exact ⟨0, le_rfl, rfl⟩
  | cons c scheme ih =>
    obtain ⟨n, hn, hfind⟩ := ih
    rw [List.cons_append, List.cons_append, findText]
    split
    · exact ⟨0, Nat.zero_le _, rfl⟩
    · refine ⟨n + 1, by rw [List.length_cons]; omega, ?_⟩
      rw [hfind]
      rfl

/-- An address with a path has both that a key is looked for behind. -/
theorem isSome_address (scheme host app : List Char) :
    (findText "://".toList (scheme ++ "://".toList ++ host ++ '/' :: app)).isSome ∧
      (pathStart (scheme ++ "://".toList ++ host ++ '/' :: app)).isSome := by
  obtain ⟨n, hn, hfind⟩ := exists_findText scheme (host ++ '/' :: app)
  rw [← List.append_assoc] at hfind
  refine ⟨by rw [hfind]; rfl, ?_⟩
  rw [pathStart, hfind, Option.isSome_map, Option.map_some, Option.getD_some,
    List.findIdx?_isSome, List.any_eq_true]
  refine ⟨'/', ?_, by decide⟩
  have hle : n + 3 ≤ (scheme ++ "://".toList ++ host).length := by
    rw [List.length_append, List.length_append]
    change n + 3 ≤ scheme.length + 3 + host.length
    omega
  rw [List.drop_append_of_le_length hle]
  exact List.mem_append_right _ (List.mem_cons_self ..)

theorem streamUrl_inj {key' : List Char} :
    streamUrl scheme host app key = streamUrl scheme host app key' ↔ key = key' := by
  unfold streamUrl
  rw [String.ofList_inj, List.append_cancel_left_eq, List.cons.injEq]
  exact and_iff_right rfl

theorem streamUrl_ne_append {key' : List Char} (h : key.getLast? = some '/') :
    streamUrl scheme host app key ≠ streamUrl scheme host app key' ++ "<key>" := by
  intro heq
  have hlast := congrArg (fun text ↦ text.toList.getLast?) heq
  obtain ⟨front, rfl⟩ := List.getLast?_eq_some_iff.mp h
  unfold streamUrl at hlast
  have hkey : "<key>".toList.getLast? = some '>' := rfl
  rw [String.toList_append, String.toList_ofList, ← List.cons_append, ← List.append_assoc,
    List.getLast?_concat, List.getLast?_append, hkey, Option.some_or, Option.some.injEq] at hlast
  exact absurd hlast (by decide)

/-- Whatever is written down of a url is made of the redacted one. -/
theorem writtenAlike_of_redacted {url url' : String}
    (h : redactStreamUrl url = redactStreamUrl url') : WrittenAlike url url' where
  redacted := h
  started := by
    intro name pid
    unfold startLine
    rw [h]
  status := by
    intro spec figures
    have hget : ∀ url, ((withUrl spec url).options.get "url").asString = url := by
      intro url
      unfold withUrl
      rw [Value.get_set_self]
      rfl
    have hurl : redactStreamUrl (if figures.settled then url else "") =
        redactStreamUrl (if figures.settled then url' else "") := by
      split
      · exact h
      · rfl
    unfold streamStatus
    rw [hget, hget]
    dsimp only
    rw [hurl]
    rfl

/-- A url that ends in a slash is written down as it is. -/
theorem redactStreamUrl_of_getLast? (h : key.getLast? = some '/') :
    redactStreamUrl (streamUrl scheme host app key) = streamUrl scheme host app key := by
  obtain ⟨front, rfl⟩ := List.getLast?_eq_some_iff.mp h
  unfold streamUrl
  rw [← List.cons_append, ← List.append_assoc]
  generalize scheme ++ "://".toList ++ host ++ '/' :: app ++ '/' :: front = text
  have hlast : lastSlash (text ++ ['/']) = some text.length := by
    rw [lastSlash, List.reverse_append, List.reverse_singleton, List.singleton_append,
      List.findIdx?_cons, if_pos (by decide), List.length_append]
    rfl
  have hempty : (text ++ ['/']).drop (text.length + 1) = [] :=
    List.drop_of_length_le (by simp)
  unfold redactStreamUrl
  rw [String.toList_ofList]
  dsimp only
  rw [hlast]
  cases pathStart (text ++ ['/']) with
  | none => rfl
  | some start =>
    dsimp only
    by_cases hle : text.length ≤ start
    · rw [if_pos hle]
    · rw [if_neg hle, hempty, if_pos List.isEmpty_nil]

/-- The first letters of a key that are written down are those up to its last slash. -/
theorem redactStreamUrl_of_ne (hne : key ≠ []) (h : key.getLast? ≠ some '/') :
    redactStreamUrl (streamUrl scheme host app key) =
      streamUrl scheme host app (folder key) ++ "<key>" := by
  obtain ⟨hscheme, hpath⟩ := isSome_address scheme host app
  have hname : key.rtakeWhile (· ≠ '/') ≠ [] := by
    rw [Ne, List.rtakeWhile_eq_nil_iff]
    intro hall
    have hslash := hall hne
    rw [decide_eq_true_eq, not_not] at hslash
    rw [List.getLast?_eq_getLast_of_ne_nil hne, hslash] at h
    exact h rfl
  have hnot : '/' ∉ key.rtakeWhile (· ≠ '/') := by
    intro hmem
    have hne := List.mem_rtakeWhile_imp hmem
    rw [decide_eq_true_eq] at hne
    exact hne rfl
  have hkey : folder key ++ key.rtakeWhile (· ≠ '/') = key := List.rdropWhile_append_rtakeWhile
  unfold streamUrl
  by_cases hfolder : folder key = []
  · rw [hfolder, List.nil_append] at hkey
    rw [hkey] at hnot
    rw [redactStreamUrl_key hscheme hpath hnot hne, hfolder]
  · -- A folder ends in the slash that the name follows, so its front is a part of the path.
    obtain ⟨front, hfront⟩ : ∃ front, folder key = front ++ ['/'] := by
      have hlast := List.rdropWhile_last_not _ _ hfolder
      rw [decide_eq_true_eq, not_not] at hlast
      refine ⟨(folder key).dropLast, ?_⟩
      conv_lhs => rw [← List.dropLast_append_getLast hfolder]
      rw [show (folder key).getLast hfolder = '/' from hlast]
    obtain ⟨hscheme', hpath'⟩ := isSome_address scheme host (app ++ '/' :: front)
    rw [← List.cons_append, ← List.append_assoc] at hscheme' hpath'
    have hredact := redactStreamUrl_key hscheme' hpath' hnot hname
    rw [hfront]
    conv_lhs => rw [← hkey, hfront]
    simp only [List.append_assoc, List.cons_append, List.nil_append] at hredact ⊢
    exact hredact

/-- Two keys are told apart exactly if they differ and one of them ends in a slash, or they differ
before their last slashes. -/
theorem writtenAlike_iff (scheme host app : List Char) {key key' : List Char} (h : key ≠ [])
    (h' : key' ≠ []) :
    WrittenAlike (streamUrl scheme host app key) (streamUrl scheme host app key') ↔
      key = key' ∨
        key.getLast? ≠ some '/' ∧ key'.getLast? ≠ some '/' ∧ folder key = folder key' := by
  constructor
  · intro halike
    have heq := halike.redacted
    by_cases hlast : key.getLast? = some '/'
    · rw [redactStreamUrl_of_getLast? hlast] at heq
      by_cases hlast' : key'.getLast? = some '/'
      · rw [redactStreamUrl_of_getLast? hlast', streamUrl_inj] at heq
        exact Or.inl heq
      · rw [redactStreamUrl_of_ne h' hlast'] at heq
        exact absurd heq (streamUrl_ne_append hlast)
    · rw [redactStreamUrl_of_ne h hlast] at heq
      by_cases hlast' : key'.getLast? = some '/'
      · rw [redactStreamUrl_of_getLast? hlast'] at heq
        exact absurd heq.symm (streamUrl_ne_append hlast')
      · rw [redactStreamUrl_of_ne h' hlast', String.append_left_inj, streamUrl_inj] at heq
        exact Or.inr ⟨hlast, hlast', heq⟩
  · rintro (rfl | ⟨hlast, hlast', hfolder⟩)
    · exact writtenAlike_of_redacted rfl
    · apply writtenAlike_of_redacted
      rw [redactStreamUrl_of_ne h hlast, redactStreamUrl_of_ne h' hlast', hfolder]

/-- Any two keys without a slash are told apart by nothing. -/
theorem writtenAlike_simple :
    WrittenAlike (streamUrl "rtmp".toList "host".toList "live".toList "secret".toList)
      (streamUrl "rtmp".toList "host".toList "live".toList "other".toList) :=
  (writtenAlike_iff _ _ _ (by decide) (by decide)).mpr (Or.inr (by decide))

/-- A key that ends in a slash is written down. -/
theorem not_writtenAlike :
    ¬ WrittenAlike (streamUrl "rtmp".toList "host".toList "live".toList "secret/".toList)
      (streamUrl "rtmp".toList "host".toList "live".toList "other/".toList) := by
  intro h
  exact absurd h.redacted (by decide +kernel)

end WebLinked.Engine.RedactedUrls
