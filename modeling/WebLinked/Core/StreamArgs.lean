import Mathlib.Data.List.Basic

/-!
# What is written down of a stream's url

`src/core/stream_args.cpp:38–55`.
-/

namespace WebLinked.Core

/-- `find` of a text, from its beginning. -/
def findText (text : List Char) : List Char → Option ℕ
  | [] => none
  | c :: rest =>
    if text.isPrefixOf (c :: rest) then some 0 else (findText text rest).map (· + 1)

/-- The slash that ends the host; `src/core/stream_args.cpp:41–42`. -/
def pathStart (url : List Char) : Option ℕ :=
  let after := ((findText "://".toList url).map (· + 3)).getD 0
  ((url.drop after).findIdx? (· = '/')).map (after + ·)

/-- The last slash; `src/core/stream_args.cpp:46`. -/
def lastSlash (url : List Char) : Option ℕ :=
  (url.reverse.findIdx? (· = '/')).map (url.length - 1 - ·)

/-- `redactStreamUrl`; `src/core/stream_args.cpp:38`. -/
def redactStreamUrl (url : String) : String :=
  let c := url.toList
  match pathStart c, lastSlash c with
  | some start, some last =>
    if last ≤ start then url
    else if (c.drop (last + 1)).isEmpty then url
    else String.ofList (c.take (last + 1)) ++ "<key>"
  | _, _ => url

variable {text a b : List Char} {i : ℕ}

/-- A text that is found fits. -/
theorem add_length_le_of_findText (h : findText text a = some i) : i + text.length ≤ a.length := by
  induction a generalizing i with
  | nil => cases h
  | cons c rest ih =>
    rw [findText] at h
    split at h
    · next hp =>
      cases h
      rw [Nat.zero_add]
      exact (List.isPrefixOf_iff_prefix.mp hp).length_le
    · obtain ⟨j, hj, rfl⟩ := Option.map_eq_some_iff.mp h
      have hle := ih hj
      rw [List.length_cons]
      omega

/-- What is found is found first, whatever comes after. -/
theorem findText_append (h : findText text a = some i) (b : List Char) :
    findText text (a ++ b) = some i := by
  induction a generalizing i with
  | nil => cases h
  | cons c rest ih =>
    rw [findText] at h
    rw [List.cons_append, findText]
    split at h
    · next hp =>
      have hlong : text <+: c :: (rest ++ b) :=
        (List.isPrefixOf_iff_prefix.mp hp).trans (List.prefix_append (c :: rest) b)
      rw [if_pos (List.isPrefixOf_iff_prefix.mpr hlong)]
      exact h
    · next hp =>
      obtain ⟨j, hj, hij⟩ := Option.map_eq_some_iff.mp h
      have hlen := add_length_le_of_findText hj
      have hnot : ¬ text.isPrefixOf (c :: (rest ++ b)) = true := by
        intro hlong
        refine hp (List.isPrefixOf_iff_prefix.mpr ?_)
        refine List.prefix_of_prefix_length_le (List.isPrefixOf_iff_prefix.mp hlong)
          (List.prefix_append (c :: rest) b) ?_
        rw [List.length_cons]
        omega
      rw [if_neg hnot, ih hj, Option.map_some, hij]

/-- The key of a url with a scheme and a path is not written down. -/
theorem redactStreamUrl_key {base key : List Char} (hscheme : (findText "://".toList base).isSome)
    (hpath : (pathStart base).isSome) (hkey : '/' ∉ key) (hne : key ≠ []) :
    redactStreamUrl (String.ofList (base ++ '/' :: key)) =
      String.ofList (base ++ ['/']) ++ "<key>" := by
  obtain ⟨n, hn⟩ := Option.isSome_iff_exists.mp hscheme
  obtain ⟨start, hstart⟩ := Option.isSome_iff_exists.mp hpath
  have hlt : n + 3 ≤ start ∧ start < base.length := by
    rw [pathStart, hn] at hstart
    obtain ⟨j, hj, rfl⟩ := Option.map_eq_some_iff.mp hstart
    have hlen := (List.findIdx?_eq_some_iff_getElem.mp hj).1
    rw [List.length_drop] at hlen
    change j < base.length - (n + 3) at hlen
    change n + 3 ≤ n + 3 + j ∧ n + 3 + j < base.length
    omega
  have hfits : n + 3 ≤ base.length := by omega
  have hsame : pathStart (base ++ '/' :: key) = some start := by
    rw [pathStart, hn] at hstart
    rw [pathStart, findText_append hn]
    change ((base.drop (n + 3)).findIdx? (· = '/')).map (n + 3 + ·) = some start at hstart
    change (((base ++ '/' :: key).drop (n + 3)).findIdx? (· = '/')).map (n + 3 + ·) = some start
    obtain ⟨j, hj, hstart⟩ := Option.map_eq_some_iff.mp hstart
    rw [List.drop_append_of_le_length hfits, List.findIdx?_append, hj]
    exact congrArg some hstart
  have hlast : lastSlash (base ++ '/' :: key) = some base.length := by
    have hnone : key.reverse.findIdx? (· = '/') = none := by
      rw [List.findIdx?_eq_none_iff]
      intro c hc
      have hne : c ≠ '/' := fun h ↦ hkey (List.mem_reverse.mp (h ▸ hc))
      exact decide_eq_false hne
    have hreverse : (base ++ '/' :: key).reverse = key.reverse ++ '/' :: base.reverse := by simp
    rw [lastSlash, hreverse, List.findIdx?_append, hnone, List.findIdx?_cons]
    simp only [decide_true, if_true, Option.map_some, Option.none_or, List.length_append,
      List.length_cons, List.length_reverse, Option.some.injEq]
    omega
  have hdrop : (base ++ '/' :: key).drop (base.length + 1) = key := by
    rw [← List.drop_drop, List.drop_left]
    rfl
  have htake : (base ++ '/' :: key).take (base.length + 1) = base ++ ['/'] := by
    rw [List.take_length_add_append]
    rfl
  rw [redactStreamUrl, String.toList_ofList, hsame, hlast]
  dsimp only
  rw [if_neg (Nat.not_le.mpr hlt.2), hdrop, htake, if_neg (by simpa using hne)]

example : redactStreamUrl "rtmp://host/live/secret" = "rtmp://host/live/<key>" := by decide +kernel

end WebLinked.Core
