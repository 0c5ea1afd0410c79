import TrapChat.Library.PercentEncoding

/-!
Paths of URLs as lists of segments, with a slash before each. What fetches a URL and
what serves it both remove the segments `.` and `..`, in ways of their own: the one while
it parses, by the URL standard, the other with `path.Clean`.
-/

namespace UrlPath

/-- A slash before every segment. -/
def render (segs : List (List Char)) : List Char := segs.flatMap ('/' :: ·)

/-- The segments of a path that begins with a slash. -/
def segments (path : List Char) : List (List Char) := (path.splitOn '/').tail

def isSingleDot (seg : List Char) : Bool := seg ∈ [".", "%2e", "%2E"].map String.toList

def isDoubleDot (seg : List Char) : Bool :=
  seg ∈ ["..", ".%2e", ".%2E", "%2e.", "%2E.", "%2e%2e", "%2e%2E", "%2E%2e", "%2E%2E"].map
    String.toList

/-- What the parser makes of one more segment. A dot segment at the end leaves an empty one. -/
def addSegment (path : List (List Char)) (seg : List Char) (last : Bool) : List (List Char) :=
  if isDoubleDot seg then path.dropLast ++ (if last then [[]] else [])
  else if isSingleDot seg then path ++ (if last then [[]] else [])
  else path ++ [seg]

def addSegments (path : List (List Char)) : List (List Char) → List (List Char)
  | [] => path
  | [seg] => addSegment path seg true
  | seg :: rest => addSegments (addSegment path seg false) rest

/-- What stands behind the scheme and the authority of a URL. -/
def afterAuthority (url : List Char) : List Char :=
  ((url.dropWhile (· ≠ ':')).drop 3).dropWhile (· ≠ '/')

/-- The path of a parsed URL that has no query and no fragment, and in its path no
character that the parser escapes. -/
def pathname (url : List Char) : List Char :=
  render (addSegments [] (segments (afterAuthority url)))

/-- A scheme and an authority. -/
structure IsOrigin (url : List Char) : Prop where
  parts : ∃ scheme authority, url = scheme ++ "://".toList ++ authority ∧ ':' ∉ scheme ∧
    authority ≠ [] ∧ ∀ c ∈ authority, c ∉ ['/', '\\', '?', '#']

/-- `path.Clean`, by segments. -/
def cleanSegment (path : List (List Char)) (seg : List Char) : List (List Char) :=
  if seg = [] ∨ seg = ['.'] then path
  else if seg = ['.', '.'] then path.dropLast
  else path ++ [seg]

/-- A slash at the end stays. -/
def clean (path : List Char) : List Char :=
  let segs := (segments path).foldl cleanSegment []
  if segs = [] then ['/'] else render segs ++ if path.getLast? = some '/' then ['/'] else []

theorem decodeChars_of_isSingleDot {seg : List Char} (h : isSingleDot seg = true) :
    PercentEncoding.decodeChars seg = some "." := by
  obtain ⟨text, htext, rfl⟩ := List.mem_map.mp (of_decide_eq_true h)
  revert text
  decide

theorem decodeChars_of_isDoubleDot {seg : List Char} (h : isDoubleDot seg = true) :
    PercentEncoding.decodeChars seg = some ".." := by
  obtain ⟨text, htext, rfl⟩ := List.mem_map.mp (of_decide_eq_true h)
  revert text
  decide

/-! ### Rendered segments -/

variable {segs : List (List Char)}

theorem splitOn_append_render (h : ∀ seg ∈ segs, '/' ∉ seg) {front : List Char}
    (hfront : '/' ∉ front) : (front ++ render segs).splitOn '/' = front :: segs := by
  induction segs generalizing front with
  | nil =>
      rw [render, List.flatMap_nil, List.append_nil]
      exact List.splitOn_eq_singleton hfront
  | cons seg rest ih =>
      have hseg : '/' ∉ seg := h seg List.mem_cons_self
      have hrest : ∀ seg' ∈ rest, '/' ∉ seg' :=
        fun seg' hmem => h seg' (List.mem_cons_of_mem _ hmem)
      show (front ++ '/' :: (seg ++ render rest)).splitOn '/' = _
      rw [List.splitOn_append_cons_self_of_not_mem hfront, ih hrest hseg]

theorem segments_render (h : ∀ seg ∈ segs, '/' ∉ seg) : segments (render segs) = segs := by
  have hsplit := splitOn_append_render h (List.not_mem_nil (a := '/'))
  rw [List.nil_append] at hsplit
  rw [segments, hsplit, List.tail_cons]

theorem getLast?_render (hne : segs ≠ []) (h : ∀ seg ∈ segs, seg ≠ [] ∧ '/' ∉ seg) :
    (render segs).getLast? ≠ some '/' := by
  have hseg := h (segs.getLast hne) (List.getLast_mem hne)
  have hrender : render segs = render segs.dropLast ++ '/' :: segs.getLast hne := by
    rw [← List.flatMap_singleton (f := ('/' :: ·)), render, render, ← List.flatMap_append,
      List.dropLast_concat_getLast]
  have hlast : (render segs).getLast? = (segs.getLast hne).getLast? := by
    rw [hrender, List.getLast?_append, List.getLast?_cons_of_ne_nil hseg.1,
      List.getLast?_eq_some_getLast hseg.1]
    rfl
  rw [hlast]
  exact fun heq => hseg.2 (List.mem_of_getLast? heq)

/-! ### Paths that stay as they are -/

theorem addSegments_plain (h : ∀ seg ∈ segs, isDoubleDot seg = false ∧ isSingleDot seg = false)
    (path : List (List Char)) : addSegments path segs = path ++ segs := by
  have hadd : ∀ seg ∈ segs, ∀ path last, addSegment path seg last = path ++ [seg] := by
    intro seg hmem path last
    rw [addSegment, (h seg hmem).1, (h seg hmem).2]
    rfl
  clear h
  fun_induction addSegments path segs with
  | case1 path => rw [List.append_nil]
  | case2 path seg => exact hadd seg List.mem_cons_self path true
  | case3 path seg rest hrest ih =>
      rw [ih fun seg' hmem => hadd seg' (List.mem_cons_of_mem _ hmem),
        hadd seg List.mem_cons_self, List.append_assoc, List.singleton_append]

theorem foldl_cleanSegment_plain
    (h : ∀ seg ∈ segs, seg ≠ [] ∧ isDoubleDot seg = false ∧ isSingleDot seg = false)
    (path : List (List Char)) : segs.foldl cleanSegment path = path ++ segs := by
  induction segs generalizing path with
  | nil => rw [List.foldl_nil, List.append_nil]
  | cons seg rest ih =>
      obtain ⟨hne, hdouble, hsingle⟩ := h seg List.mem_cons_self
      have hadd : cleanSegment path seg = path ++ [seg] := by
        rw [cleanSegment, if_neg, if_neg]
        · rintro rfl
          exact absurd hdouble (by decide)
        · rintro (rfl | rfl)
          · exact hne rfl
          · exact absurd hsingle (by decide)
      rw [List.foldl_cons, hadd, ih fun seg' hmem => h seg' (List.mem_cons_of_mem _ hmem),
        List.append_assoc, List.singleton_append]

theorem clean_render (hne : segs ≠ [])
    (h : ∀ seg ∈ segs, seg ≠ [] ∧ '/' ∉ seg ∧ isDoubleDot seg = false ∧ isSingleDot seg = false) :
    clean (render segs) = render segs := by
  have hfold : (segments (render segs)).foldl cleanSegment [] = segs := by
    rw [segments_render fun seg hmem => (h seg hmem).2.1, foldl_cleanSegment_plain, List.nil_append]
    exact fun seg hmem => ⟨(h seg hmem).1, (h seg hmem).2.2⟩
  have hlast : (render segs).getLast? ≠ some '/' :=
    getLast?_render hne fun seg hmem => ⟨(h seg hmem).1, (h seg hmem).2.1⟩
  rw [clean, hfold]
  simp only [if_neg hne, if_neg hlast, List.append_nil]

/-! ### URLs on an origin -/

theorem afterAuthority_append {url : List Char} (h : IsOrigin url) (path : List Char) :
    afterAuthority (url ++ '/' :: path) = '/' :: path := by
  obtain ⟨scheme, authority, rfl, hscheme, -, hauthority⟩ := h.parts
  have hcolon : ∀ c ∈ scheme, decide (c ≠ ':') = true := by
    intro c hc
    exact decide_eq_true fun heq => hscheme (heq ▸ hc)
  have hslash : ∀ c ∈ authority, decide (c ≠ '/') = true := by
    intro c hc
    exact decide_eq_true fun heq => hauthority c hc (by simp [heq])
  have hscheme : (scheme ++ "://".toList ++ authority ++ '/' :: path).dropWhile (· ≠ ':') =
      "://".toList ++ (authority ++ '/' :: path) := by
    rw [List.append_assoc, List.append_assoc, List.dropWhile_append_of_pos hcolon]
    rfl
  rw [afterAuthority, hscheme]
  show (authority ++ '/' :: path).dropWhile (· ≠ '/') = _
  rw [List.dropWhile_append_of_pos hslash]
  simp

theorem pathname_append_render {url : List Char} (horigin : IsOrigin url) (hne : segs ≠ [])
    (h : ∀ seg ∈ segs, '/' ∉ seg) :
    pathname (url ++ render segs) = render (addSegments [] segs) := by
  have hafter : afterAuthority (url ++ render segs) = render segs := by
    cases segs with
    | nil => exact absurd rfl hne
    | cons seg rest => exact afterAuthority_append horigin _
  rw [pathname, hafter, segments_render h]

end UrlPath
