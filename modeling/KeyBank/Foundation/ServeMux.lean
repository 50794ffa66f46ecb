import KeyBank.Foundation.UrlText
import Mathlib.Data.List.Sort
import Mathlib.Data.Nat.Notation

/-!
# A request multiplexer with method and path patterns

The routing of Go's `net/http` since its patterns carry methods and wildcards. A pattern is an
optional method and a list of path segments: literals, single-segment wildcards, and at the end
possibly a multi wildcard, which a trailing slash stands for. `{$}` is the literal segment `/`.

* `matchPath` walks a path one segment at a time through the patterns still possible: a literal
  is tried first, then a single wildcard, then a multi wildcard, so that the most specific
  pattern wins.
* `matchMethodAndPath` prefers patterns with the request's method, then, for `HEAD`, those with
  `GET`, then those with no method.
* `findHandler` is the whole decision. The multiplexer answers by itself with a redirect, when
  the path is not clean or only lacks the trailing slash of a registered subtree, with 405, when
  only the method does not match, and with 404.

Paths are byte strings in their escaped form; matched segments are unescaped.
-/

namespace ServeMux

/-- A path, or a segment of one. -/
abbrev Text : Type := List UInt8

/-- The slash, as a path and as the segment a trailing slash gives. -/
def slash : Text := [47]

inductive Segment where
  | lit (s : Text)
  | wild
  | multi
  deriving DecidableEq, Repr

structure Pattern where
  method : Option String
  segments : List Segment
  deriving DecidableEq, Repr

/-! ### Paths -/

/-- `url.PathUnescape`; `none` is an invalid escape. -/
def pathUnescape? : Text → Option Text
  | [] => some []
  | 37 :: h :: l :: p =>
    match UrlText.hexValue h, UrlText.hexValue l with
    | some x, some y => (pathUnescape? p).map fun q => UInt8.ofNat (16 * x + y) :: q
    | _, _ => none
  | b :: p => if b = 37 then none else (pathUnescape? p).map fun q => b :: q

/-- A segment that cannot be unescaped is matched as it stands. -/
def pathUnescape (p : Text) : Text := (pathUnescape? p).getD p

/-- Name the segment after a trailing slash by the slash itself. -/
private def markTrailing : List Text → List Text
  | [] => []
  | [[]] => [slash]
  | s :: ss => pathUnescape s :: markTrailing ss

/-- The unescaped segments of a path that begins with a slash. -/
def pathSegments (path : Text) : List Text :=
  match path with
  | [] => []
  | _ :: p => markTrailing (p.splitOn 47)

/-- One element of a path while cleaning, the elements so far in reverse. -/
private def cleanStep (acc : List Text) (s : Text) : List Text :=
  if s = [] ∨ s = [46] then acc else if s = [46, 46] then acc.tail else s :: acc

/-- `cleanPath`: `path.Clean` of the rooted path, with a trailing slash kept. -/
def cleanPath (p : Text) : Text :=
  let p := if p.head? = some 47 then p else 47 :: p
  let np := slash ++ slash.intercalate ((p.splitOn 47).foldl cleanStep []).reverse
  if p.getLast? = some 47 ∧ np ≠ slash then np ++ slash else np

/-! ### Matching -/

variable {H : Type}

/-- What is left of a pattern after a literal segment. -/
private def stepLit (seg : Text) (r : List Segment × H) : Option (List Segment × H) :=
  match r.1 with
  | .lit s :: rest => if s = seg then some (rest, r.2) else none
  | _ => none

/-- What is left of a pattern after a segment its single wildcard takes. -/
private def stepWild (r : List Segment × H) : Option (List Segment × H) :=
  match r.1 with
  | .wild :: rest => some (rest, r.2)
  | _ => none

/-- The most specific of the patterns that match the segments, with the wildcard matches. -/
def matchPath : List (List Segment × H) → List Text → Option (H × List Text)
  | rs, [] => (rs.find? fun r => r.1 = []).map fun r => (r.2, [])
  | rs, seg :: rest =>
    (matchPath (rs.filterMap (stepLit seg)) rest).or
      ((if seg = slash then none
        else (matchPath (rs.filterMap stepWild) rest).map fun m => (m.1, seg :: m.2)).or
        ((rs.find? fun r => r.1 = [.multi]).map fun r => (r.2, [])))

/-- The registered patterns with a given method, ready to be matched. -/
def withMethod (mux : List (Pattern × H)) (method : Option String) :
    List (List Segment × (Pattern × H)) :=
  (mux.filter fun p => p.1.method = method).map fun p => (p.1.segments, p)

/-- The pattern a request goes to. -/
def matchMethodAndPath (mux : List (Pattern × H)) (method : String) (path : Text) :
    Option ((Pattern × H) × List Text) :=
  (matchPath (withMethod mux (some method)) (pathSegments path)).or
    ((if method = "HEAD" then matchPath (withMethod mux (some "GET")) (pathSegments path)
      else none).or
      (matchPath (withMethod mux none) (pathSegments path)))

/-- Whether a pattern matches a path with nothing left to a multi wildcard. -/
def exactMatch (segs : List Segment) (path : Text) : Bool :=
  segs.getLast? != some .multi ||
    (path.getLast? == some 47 && segs.length == path.count 47)

/-- What the multiplexer decides to do. -/
inductive Found (H : Type) where
  | handler (h : H) (matched : List Text)
  | redirect (path : Text)
  | methodNotAllowed (allowed : List String)
  | notFound
  | badRequest

/-- The methods registered for a path; `GET` brings `HEAD` with it. -/
def methodsAt (mux : List (Pattern × H)) (path : Text) : List String :=
  let methods := mux.filterMap fun p =>
    p.1.method.filter fun m => (matchPath (withMethod mux (some m)) (pathSegments path)).isSome
  if "GET" ∈ methods then "HEAD" :: methods else methods

/-- The methods registered for a path, with or without a trailing slash. -/
def matchingMethods (mux : List (Pattern × H)) (path : Text) : List String :=
  let methods := methodsAt mux path ++
    if path.getLast? = some 47 then [] else methodsAt mux (path ++ slash)
  methods.dedup.insertionSort (· ≤ ·)

/-- Whether a path that no pattern matches exactly would match one with a trailing slash. -/
def lacksTrailingSlash (mux : List (Pattern × H)) (method : String) (path : Text) : Bool :=
  let exact (p : Text) : Bool :=
    match matchMethodAndPath mux method p with
    | some m => exactMatch m.1.1.segments p
    | none => false
  !exact path && path.getLast? != some 47 && exact (path ++ slash)

/-- The decision on a cleaned path. -/
def findClean (mux : List (Pattern × H)) (method : String) (path : Text) : Found H :=
  match matchMethodAndPath mux method path with
  | some m => .handler m.1.2 m.2
  | none =>
    let allowed := matchingMethods mux path
    if allowed = [] then .notFound else .methodNotAllowed allowed

/-- `ServeMux.findHandler`, after the check for `*`. `CONNECT` requests are not cleaned. -/
def findHandler (mux : List (Pattern × H)) (method : String) (requestURI path : Text) :
    Found H :=
  if requestURI = [42] then .badRequest
  else if method = "CONNECT" then
    if lacksTrailingSlash mux method path then .redirect (cleanPath path ++ slash)
    else findClean mux method path
  else
    let clean := cleanPath path
    if lacksTrailingSlash mux method clean then .redirect (clean ++ slash)
    else if clean ≠ path then .redirect clean
    else findClean mux method path

/-! ### Only registered handlers, and only under their method -/

private theorem snd_mem_of_stepLit {seg : Text} {rs : List (List Segment × H)} {h : H}
    (hmem : h ∈ (rs.filterMap (stepLit seg)).map Prod.snd) : h ∈ rs.map Prod.snd := by
  simp only [List.mem_map, List.mem_filterMap] at hmem ⊢
  obtain ⟨r, ⟨r', hr', hstep⟩, rfl⟩ := hmem
  refine ⟨r', hr', ?_⟩
  unfold stepLit at hstep
  split at hstep
  · split at hstep
    · cases hstep; rfl
    · cases hstep
  · cases hstep

private theorem snd_mem_of_stepWild {rs : List (List Segment × H)} {h : H}
    (hmem : h ∈ (rs.filterMap stepWild).map Prod.snd) : h ∈ rs.map Prod.snd := by
  simp only [List.mem_map, List.mem_filterMap] at hmem ⊢
  obtain ⟨r, ⟨r', hr', hstep⟩, rfl⟩ := hmem
  refine ⟨r', hr', ?_⟩
  unfold stepWild at hstep
  split at hstep
  · cases hstep; rfl
  · cases hstep

/-- A path match is one of the patterns it started from. -/
theorem mem_of_matchPath {rs : List (List Segment × H)} {segs : List Text} {m : H × List Text}
    (h : matchPath rs segs = some m) : m.1 ∈ rs.map Prod.snd := by
  induction segs generalizing rs m with
  | nil =>
    rw [matchPath, Option.map_eq_some_iff] at h
    obtain ⟨r, hr, rfl⟩ := h
    exact List.mem_map_of_mem (List.mem_of_find?_eq_some hr)
  | cons seg rest ih =>
    rw [matchPath, Option.or_eq_some_iff, Option.or_eq_some_iff] at h
    rcases h with h | ⟨-, h | ⟨-, h⟩⟩
    · exact snd_mem_of_stepLit (ih h)
    · split at h
      · cases h
      · rw [Option.map_eq_some_iff] at h
        obtain ⟨m', hm', rfl⟩ := h
        have hmem := ih (m := m') hm'
        exact snd_mem_of_stepWild hmem
    · rw [Option.map_eq_some_iff] at h
      obtain ⟨r, hr, rfl⟩ := h
      exact List.mem_map_of_mem (List.mem_of_find?_eq_some hr)

/-- The methods a pattern serves. -/
def Pattern.Serves (p : Pattern) (method : String) : Prop :=
  p.method = none ∨ p.method = some method ∨ (method = "HEAD" ∧ p.method = some "GET")

/-- Only a `GET` pattern serves a method that is not its own. -/
theorem Pattern.Serves.eq {p : Pattern} {method m : String} (h : p.Serves method)
    (hp : p.method = some m) : method = m ∨ (m = "GET" ∧ method = "HEAD") := by
  rcases h with h | h | ⟨hhead, h⟩
  · rw [hp] at h
    cases h
  · rw [hp] at h
    exact .inl (Option.some.inj h).symm
  · rw [hp] at h
    exact .inr ⟨Option.some.inj h, hhead⟩

private theorem mem_of_withMethod {mux : List (Pattern × H)} {method : Option String}
    {p : Pattern × H} (h : p ∈ (withMethod mux method).map Prod.snd) :
    p ∈ mux ∧ p.1.method = method := by
  simp only [withMethod, List.map_map, List.mem_map, List.mem_filter, decide_eq_true_eq] at h
  obtain ⟨q, ⟨hq, hmethod⟩, rfl⟩ := h
  exact ⟨hq, hmethod⟩

theorem mem_of_matchMethodAndPath {mux : List (Pattern × H)} {method : String} {path : Text}
    {m : (Pattern × H) × List Text} (h : matchMethodAndPath mux method path = some m) :
    m.1 ∈ mux ∧ m.1.1.Serves method := by
  rw [matchMethodAndPath, Option.or_eq_some_iff, Option.or_eq_some_iff] at h
  rcases h with h | ⟨-, h | ⟨-, h⟩⟩
  · obtain ⟨hmem, hmethod⟩ := mem_of_withMethod (mem_of_matchPath h)
    exact ⟨hmem, .inr (.inl hmethod)⟩
  · split at h
    · next hhead =>
      obtain ⟨hmem, hmethod⟩ := mem_of_withMethod (mem_of_matchPath h)
      exact ⟨hmem, .inr (.inr ⟨hhead, hmethod⟩)⟩
    · cases h
  · obtain ⟨hmem, hmethod⟩ := mem_of_withMethod (mem_of_matchPath h)
    exact ⟨hmem, .inl hmethod⟩

/-- **Dispatch.** A request reaches a handler only through a registered pattern that serves its
method. -/
theorem mem_of_findHandler {mux : List (Pattern × H)} {method : String} {requestURI path : Text}
    {h : H} {matched : List Text}
    (hfound : findHandler mux method requestURI path = .handler h matched) :
    ∃ p, (p, h) ∈ mux ∧ p.Serves method := by
  have hclean : ∀ {path : Text}, findClean mux method path = .handler h matched →
      ∃ p, (p, h) ∈ mux ∧ p.Serves method := by
    intro path hf
    unfold findClean at hf
    split at hf
    · next m hm =>
      obtain ⟨hmem, hserves⟩ := mem_of_matchMethodAndPath hm
      cases hf
      exact ⟨m.1.1, hmem, hserves⟩
    · dsimp only at hf
      split at hf <;> cases hf
  unfold findHandler at hfound
  split at hfound
  · cases hfound
  · split at hfound
    · split at hfound
      · cases hfound
      · exact hclean hfound
    · dsimp only at hfound
      split at hfound
      · cases hfound
      · split at hfound
        · cases hfound
        · exact hclean hfound

/-! ### What a pattern matches -/

/-- The segments match the pattern, its single wildcards taking the segments `m`. -/
inductive Fits : List Segment → List Text → List Text → Prop where
  | nil : Fits [] [] []
  | lit {s : Text} {p : List Segment} {segs m : List Text} (h : Fits p segs m) :
      Fits (.lit s :: p) (s :: segs) m
  | wild {seg : Text} {p : List Segment} {segs m : List Text} (hseg : seg ≠ slash)
      (h : Fits p segs m) : Fits (.wild :: p) (seg :: segs) (seg :: m)
  | multi {seg : Text} {segs : List Text} : Fits [.multi] (seg :: segs) []

/-- The wildcards of a pattern can take only one thing. -/
theorem Fits.unique {p : List Segment} {segs m m' : List Text} (h : Fits p segs m)
    (h' : Fits p segs m') : m = m' := by
  induction h generalizing m' with
  | nil =>
    cases h'
    rfl
  | lit _ ih =>
    cases h' with
    | lit h' => exact ih h'
  | wild _ _ ih =>
    cases h' with
    | wild _ h' => rw [ih h']
  | multi =>
    cases h'
    rfl

@[simp] theorem fits_nil_iff {segs m : List Text} : Fits [] segs m ↔ segs = [] ∧ m = [] := by
  constructor
  · intro h
    cases h
    exact ⟨rfl, rfl⟩
  · rintro ⟨rfl, rfl⟩
    exact .nil

@[simp] theorem fits_lit_iff {s : Text} {p : List Segment} {segs m : List Text} :
    Fits (.lit s :: p) segs m ↔ ∃ rest, segs = s :: rest ∧ Fits p rest m := by
  constructor
  · intro h
    cases h with
    | lit h => exact ⟨_, rfl, h⟩
  · rintro ⟨rest, rfl, h⟩
    exact .lit h

@[simp] theorem fits_wild_iff {p : List Segment} {segs m : List Text} :
    Fits (.wild :: p) segs m ↔
      ∃ seg rest m', seg ≠ slash ∧ segs = seg :: rest ∧ m = seg :: m' ∧ Fits p rest m' := by
  constructor
  · intro h
    cases h with
    | wild hseg h => exact ⟨_, _, _, hseg, rfl, rfl, h⟩
  · rintro ⟨seg, rest, m', hseg, rfl, rfl, h⟩
    exact .wild hseg h

/-- How much of a path a segment of a pattern leaves open. -/
def Segment.rank : Segment → ℕ
  | lit _ => 0
  | wild => 1
  | multi => 2

/-- Where the kinds of their segments first differ, if they do, `p` leaves less open than `q`. -/
inductive Precedes : List Segment → List Segment → Prop where
  | nil : Precedes [] []
  | lt {a b : Segment} {p q : List Segment} (h : a.rank < b.rank) : Precedes (a :: p) (b :: q)
  | cons {a b : Segment} {p q : List Segment} (h : a.rank = b.rank) (hrest : Precedes p q) :
      Precedes (a :: p) (b :: q)

private theorem mem_filterMap_stepLit {seg : Text} {rs : List (List Segment × H)}
    {p : List Segment} {h : H} :
    (p, h) ∈ rs.filterMap (stepLit seg) ↔ (.lit seg :: p, h) ∈ rs := by
  rw [List.mem_filterMap]
  constructor
  · rintro ⟨⟨q, h'⟩, hr, hstep⟩
    unfold stepLit at hstep
    split at hstep
    · next s rest heq =>
      split at hstep
      · next hs =>
        cases hstep
        dsimp only at heq
        rw [← hs, ← heq]
        exact hr
      · cases hstep
    · cases hstep
  · intro hr
    exact ⟨_, hr, if_pos rfl⟩

private theorem mem_filterMap_stepWild {rs : List (List Segment × H)} {p : List Segment} {h : H} :
    (p, h) ∈ rs.filterMap stepWild ↔ (.wild :: p, h) ∈ rs := by
  rw [List.mem_filterMap]
  constructor
  · rintro ⟨⟨q, h'⟩, hr, hstep⟩
    unfold stepWild at hstep
    split at hstep
    · next rest heq =>
      cases hstep
      dsimp only at heq
      rw [← heq]
      exact hr
    · cases hstep
  · intro hr
    exact ⟨_, hr, rfl⟩

/-- **Completeness.** Where nothing is found, no pattern fits. -/
theorem not_fits_of_matchPath {rs : List (List Segment × H)} {segs : List Text}
    (h : matchPath rs segs = none) {p : List Segment} {h' : H} (hmem : (p, h') ∈ rs)
    {m : List Text} : ¬Fits p segs m := by
  induction segs generalizing rs p m with
  | nil =>
    rw [matchPath, Option.map_eq_none_iff, List.find?_eq_none] at h
    intro hfits
    cases hfits
    exact h _ hmem (decide_eq_true rfl)
  | cons seg rest ih =>
    rw [matchPath, Option.or_eq_none_iff, Option.or_eq_none_iff] at h
    obtain ⟨hlit, hwild, hmulti⟩ := h
    intro hfits
    cases hfits with
    | lit hfits => exact ih hlit (mem_filterMap_stepLit.mpr hmem) hfits
    | wild hseg hfits =>
      rw [if_neg hseg, Option.map_eq_none_iff] at hwild
      exact ih hwild (mem_filterMap_stepWild.mpr hmem) hfits
    | multi =>
      rw [Option.map_eq_none_iff, List.find?_eq_none] at hmulti
      exact hmulti _ hmem (decide_eq_true rfl)

/-- **The most specific pattern wins.** The pattern that is found fits, the wildcards took what is
handed over, and no pattern that fits is more specific. -/
theorem fits_of_matchPath {rs : List (List Segment × H)} {segs : List Text} {r : H × List Text}
    (h : matchPath rs segs = some r) :
    ∃ p, (p, r.1) ∈ rs ∧ Fits p segs r.2 ∧
      ∀ q h' m, (q, h') ∈ rs → Fits q segs m → Precedes p q := by
  induction segs generalizing rs r with
  | nil =>
    rw [matchPath, Option.map_eq_some_iff] at h
    obtain ⟨⟨p, h'⟩, hfind, rfl⟩ := h
    obtain rfl : p = [] := by simpa using List.find?_some hfind
    refine ⟨[], List.mem_of_find?_eq_some hfind, .nil, fun q _ m _ hfits => ?_⟩
    cases hfits
    exact .nil
  | cons seg rest ih =>
    rw [matchPath, Option.or_eq_some_iff, Option.or_eq_some_iff] at h
    rcases h with h | ⟨hlit, h | ⟨hwild, h⟩⟩
    · -- a literal
      obtain ⟨p, hmem, hfits, hfirst⟩ := ih h
      refine ⟨_, mem_filterMap_stepLit.mp hmem, .lit hfits, fun q h' m hq hfits' => ?_⟩
      cases hfits' with
      | lit hfits' => exact .cons rfl (hfirst _ h' m (mem_filterMap_stepLit.mpr hq) hfits')
      | wild => exact .lt Nat.zero_lt_one
      | multi => exact .lt Nat.zero_lt_two
    · -- a single wildcard, and no literal fits
      split at h
      · cases h
      · next hseg =>
        obtain ⟨r', hr', rfl⟩ := Option.map_eq_some_iff.mp h
        obtain ⟨p, hmem, hfits, hfirst⟩ := ih hr'
        refine ⟨_, mem_filterMap_stepWild.mp hmem, .wild hseg hfits, fun q h' m hq hfits' => ?_⟩
        cases hfits' with
        | lit hfits' =>
          exact absurd hfits' (not_fits_of_matchPath hlit (mem_filterMap_stepLit.mpr hq))
        | wild _ hfits' => exact .cons rfl (hfirst _ h' _ (mem_filterMap_stepWild.mpr hq) hfits')
        | multi => exact .lt Nat.one_lt_two
    · -- the multi wildcard, and nothing else fits
      obtain ⟨⟨p, h'⟩, hfind, rfl⟩ := Option.map_eq_some_iff.mp h
      obtain rfl : p = [.multi] := by simpa using List.find?_some hfind
      refine ⟨[.multi], List.mem_of_find?_eq_some hfind, .multi, fun q h' m hq hfits' => ?_⟩
      cases hfits' with
      | lit hfits' =>
        exact absurd hfits' (not_fits_of_matchPath hlit (mem_filterMap_stepLit.mpr hq))
      | wild hseg hfits' =>
        rw [if_neg hseg, Option.map_eq_none_iff] at hwild
        exact absurd hfits' (not_fits_of_matchPath hwild (mem_filterMap_stepWild.mpr hq))
      | multi => exact .cons rfl .nil

private theorem mem_withMethod {mux : List (Pattern × H)} {method : Option String}
    {segs : List Segment} {p : Pattern × H} :
    (segs, p) ∈ withMethod mux method ↔ p ∈ mux ∧ p.1.method = method ∧ p.1.segments = segs := by
  simp only [withMethod, List.mem_map, List.mem_filter, decide_eq_true_eq, Prod.mk.injEq]
  constructor
  · rintro ⟨q, ⟨hmem, hmethod⟩, hsegs, rfl⟩
    exact ⟨hmem, hmethod, hsegs⟩
  · rintro ⟨hmem, hmethod, hsegs⟩
    exact ⟨p, ⟨hmem, hmethod⟩, hsegs, rfl⟩

private theorem fits_of_withMethod {mux : List (Pattern × H)} {method : Option String}
    {segs : List Text} {r : (Pattern × H) × List Text}
    (h : matchPath (withMethod mux method) segs = some r) :
    r.1 ∈ mux ∧ r.1.1.method = method ∧ Fits r.1.1.segments segs r.2 := by
  obtain ⟨p, hmem, hfits, -⟩ := fits_of_matchPath h
  obtain ⟨hmux, hmethod, rfl⟩ := mem_withMethod.mp hmem
  exact ⟨hmux, hmethod, hfits⟩

theorem fits_of_matchMethodAndPath {mux : List (Pattern × H)} {method : String} {path : Text}
    {r : (Pattern × H) × List Text} (h : matchMethodAndPath mux method path = some r) :
    r.1 ∈ mux ∧ r.1.1.Serves method ∧ Fits r.1.1.segments (pathSegments path) r.2 := by
  rw [matchMethodAndPath, Option.or_eq_some_iff, Option.or_eq_some_iff] at h
  rcases h with h | ⟨-, h | ⟨-, h⟩⟩
  · obtain ⟨hmem, hmethod, hfits⟩ := fits_of_withMethod h
    exact ⟨hmem, .inr (.inl hmethod), hfits⟩
  · split at h
    · next hhead =>
      obtain ⟨hmem, hmethod, hfits⟩ := fits_of_withMethod h
      exact ⟨hmem, .inr (.inr ⟨hhead, hmethod⟩), hfits⟩
    · cases h
  · obtain ⟨hmem, hmethod, hfits⟩ := fits_of_withMethod h
    exact ⟨hmem, .inl hmethod, hfits⟩

/-- **Dispatch, with the path.** A handler that is found is registered under a pattern that serves
the method and fits the path. -/
theorem fits_of_findHandler {mux : List (Pattern × H)} {method : String} {requestURI path : Text}
    {h : H} {matched : List Text}
    (hfound : findHandler mux method requestURI path = .handler h matched) :
    ∃ p, (p, h) ∈ mux ∧ p.Serves method ∧ Fits p.segments (pathSegments path) matched := by
  have hclean : findClean mux method path = .handler h matched := by
    unfold findHandler at hfound
    split at hfound
    · cases hfound
    · split at hfound
      · split at hfound
        · cases hfound
        · exact hfound
      · dsimp only at hfound
        split at hfound
        · cases hfound
        · split at hfound
          · cases hfound
          · exact hfound
  unfold findClean at hclean
  split at hclean
  · next r hr =>
    cases hclean
    obtain ⟨hmem, hserves, hfits⟩ := fits_of_matchMethodAndPath hr
    exact ⟨r.1.1, hmem, hserves, hfits⟩
  · dsimp only at hclean
    split at hclean <;> cases hclean

/-- A pattern with the method of the request that fits its path is chosen, if no other such
pattern precedes it. -/
theorem matchMethodAndPath_of_fits {mux : List (Pattern × H)} {method : String} {path : Text}
    {p : Pattern} {h : H} {m : List Text} (hmem : (p, h) ∈ mux) (hmethod : p.method = some method)
    (hfits : Fits p.segments (pathSegments path) m)
    (hfirst : ∀ q ∈ mux, q.1.method = some method → ∀ m', Fits q.1.segments (pathSegments path) m' →
      Precedes q.1.segments p.segments → q = (p, h)) :
    matchMethodAndPath mux method path = some ((p, h), m) := by
  have hreg : (p.segments, (p, h)) ∈ withMethod mux (some method) :=
    mem_withMethod.mpr ⟨hmem, hmethod, rfl⟩
  cases hmatch : matchPath (withMethod mux (some method)) (pathSegments path) with
  | none => exact absurd hfits (not_fits_of_matchPath hmatch hreg)
  | some r =>
    obtain ⟨segs, hr, hrfits, hrfirst⟩ := fits_of_matchPath hmatch
    obtain ⟨hrmem, hrmethod, rfl⟩ := mem_withMethod.mp hr
    obtain ⟨r, m'⟩ := r
    obtain rfl : r = (p, h) := hfirst r hrmem hrmethod m' hrfits (hrfirst _ _ m hreg hfits)
    obtain rfl : m' = m := hrfits.unique hfits
    rw [matchMethodAndPath, hmatch, Option.some_or]

/-- What is matched up to the last segment is served as it is, if the path is clean. -/
theorem findHandler_of_match {mux : List (Pattern × H)} {method : String}
    {requestURI path : Text} {p : Pattern} {h : H} {m : List Text} (huri : requestURI ≠ [42])
    (hclean : cleanPath path = path)
    (hmatch : matchMethodAndPath mux method path = some ((p, h), m))
    (hlast : p.segments.getLast? ≠ some .multi) :
    findHandler mux method requestURI path = .handler h m := by
  have hlacks : lacksTrailingSlash mux method path = false := by
    simp [lacksTrailingSlash, hmatch, exactMatch, hlast]
  have hfound : findClean mux method path = .handler h m := by rw [findClean, hmatch]
  rw [findHandler, if_neg huri]
  split
  · rw [hlacks, hfound]
    exact if_neg Bool.false_ne_true
  · simp only [hclean, hlacks, hfound, Bool.false_eq_true, if_false, ne_eq, not_true_eq_false]

/-! ### Paths put together from segments -/

/-- The path with these segments. -/
def joinPath (segs : List Text) : Text := 47 :: slash.intercalate segs

private theorem splitOn_intercalate_slash {segs : List Text} (hne : segs ≠ [])
    (h : ∀ s ∈ segs, 47 ∉ s) : (slash.intercalate segs).splitOn 47 = segs :=
  List.splitOn_intercalate 47 h hne

/-- A path is read back from its segments, unescaped. -/
theorem pathSegments_joinPath {segs : List Text} (hne : segs ≠ [])
    (h : ∀ s ∈ segs, 47 ∉ s ∧ s ≠ []) : pathSegments (joinPath segs) = segs.map pathUnescape := by
  have hsplit := splitOn_intercalate_slash hne fun s hs => (h s hs).1
  have hmark : ∀ l : List Text, (∀ s ∈ l, s ≠ []) → markTrailing l = l.map pathUnescape := by
    intro l hl
    induction l with
    | nil => rfl
    | cons s l ih =>
      rw [List.forall_mem_cons] at hl
      rw [markTrailing, ih hl.2, List.map_cons]
      rintro rfl
      exact fun _ => hl.1 rfl
  have hpath : pathSegments (joinPath segs) = markTrailing ((slash.intercalate segs).splitOn 47) :=
    rfl
  rw [hpath, hsplit, hmark segs fun s hs => (h s hs).2]

private theorem getLast?_intercalate_slash {segs : List Text} (hne : segs ≠ [])
    (h : ∀ s ∈ segs, 47 ∉ s ∧ s ≠ []) :
    ∃ b, (slash.intercalate segs).getLast? = some b ∧ b ≠ 47 := by
  induction segs with
  | nil => exact absurd rfl hne
  | cons s segs ih =>
    rw [List.forall_mem_cons] at h
    obtain ⟨⟨hslash, hs⟩, hsegs⟩ := h
    rcases segs with _ | ⟨s', segs⟩
    · obtain ⟨b, hb⟩ := Option.ne_none_iff_exists'.mp (mt List.getLast?_eq_none_iff.mp hs)
      refine ⟨b, by simpa using hb, ?_⟩
      rintro rfl
      exact hslash (List.mem_of_getLast? hb)
    · obtain ⟨b, hb, hne⟩ := ih (List.cons_ne_nil _ _) hsegs
      refine ⟨b, ?_, hne⟩
      rw [List.intercalate_cons_cons, List.getLast?_append, hb, Option.some_or]

/-- A path without empty segments and dots is clean. -/
theorem cleanPath_joinPath {segs : List Text} (hne : segs ≠ [])
    (h : ∀ s ∈ segs, 47 ∉ s ∧ s ≠ [] ∧ s ≠ [46] ∧ s ≠ [46, 46]) :
    cleanPath (joinPath segs) = joinPath segs := by
  have hsplit : (joinPath segs).splitOn 47 = [] :: segs := by
    have hnil : joinPath segs = [] ++ 47 :: slash.intercalate segs := rfl
    rw [hnil, List.splitOn_append_cons_self_of_not_mem List.not_mem_nil,
      splitOn_intercalate_slash hne fun s hs => (h s hs).1]
  have hfold : ∀ (l acc : List Text), (∀ s ∈ l, s ≠ [] ∧ s ≠ [46] ∧ s ≠ [46, 46]) →
      l.foldl cleanStep acc = l.reverse ++ acc := by
    intro l
    induction l with
    | nil => exact fun acc _ => rfl
    | cons s l ih =>
      intro acc hl
      rw [List.forall_mem_cons] at hl
      obtain ⟨⟨h0, h1, h2⟩, hl⟩ := hl
      rw [List.foldl_cons, ih _ hl, cleanStep, if_neg (by simp [h0, h1]), if_neg h2]
      simp
  have hlast : (joinPath segs).getLast? ≠ some 47 := by
    obtain ⟨b, hb, hne⟩ := getLast?_intercalate_slash hne fun s hs => ⟨(h s hs).1, (h s hs).2.1⟩
    have hjoin : (joinPath segs).getLast? = some b := by
      rw [joinPath, ← List.singleton_append, List.getLast?_append, hb, Option.some_or]
    rw [hjoin]
    exact fun heq => hne (Option.some.inj heq)
  have hnp : slash ++ slash.intercalate ((([] :: segs).foldl cleanStep []).reverse) =
      joinPath segs := by
    rw [List.foldl_cons]
    have hskip : cleanStep [] [] = [] := rfl
    rw [hskip, hfold segs [] fun s hs => (h s hs).2, List.append_nil, List.reverse_reverse]
    rfl
  have hhead : (joinPath segs).head? = some 47 := rfl
  rw [cleanPath]
  simp only [hhead, if_true, hsplit, hnp, hlast, false_and, if_false]

/-! ### Unescaping what was percent-encoded -/

private theorem pathUnescape?_cons {b : UInt8} (hb : b ≠ 37) (p : Text) :
    pathUnescape? (b :: p) = (pathUnescape? p).map fun q => b :: q := by
  rw [pathUnescape?.eq_def]
  split
  · next heq => cases heq
  · next heq =>
    cases heq
    exact absurd rfl hb
  · next heq =>
    cases heq
    rw [if_neg hb]

/-- Bytes that are no percent sign stay as they are. -/
private theorem pathUnescape?_append {bs : Text} (h : 37 ∉ bs) (p : Text) :
    pathUnescape? (bs ++ p) = (pathUnescape? p).map fun q => bs ++ q := by
  induction bs with
  | nil => simp
  | cons b bs ih =>
    rw [List.mem_cons, not_or] at h
    rw [List.cons_append, pathUnescape?_cons (Ne.symm h.1), ih h.2, Option.map_map]
    rfl

/-- An escaped byte is read back. -/
private theorem pathUnescape?_percentByte (b : UInt8) (p : Text) :
    pathUnescape? (Utf8.encode (UrlText.percentByte b) ++ p) =
      (pathUnescape? p).map fun q => b :: q := by
  have hdigit : ∀ n < 16, String.utf8EncodeChar (UrlText.hexUpper n) =
      [UInt8.ofNat (UrlText.hexUpper n).toNat] ∧
        UrlText.hexValue (UInt8.ofNat (UrlText.hexUpper n).toNat) = some n := by decide
  have hb := b.toNat_lt
  obtain ⟨hhigh, hx⟩ := hdigit (b.toNat / 16) (by omega)
  obtain ⟨hlow, hy⟩ := hdigit (b.toNat % 16) (by omega)
  have hbytes : Utf8.encode (UrlText.percentByte b) =
      [37, UInt8.ofNat (UrlText.hexUpper (b.toNat / 16)).toNat,
        UInt8.ofNat (UrlText.hexUpper (b.toNat % 16)).toNat] := by
    rw [UrlText.percentByte, Utf8.encode, List.flatMap_cons, List.flatMap_cons, List.flatMap_cons,
      hhigh, hlow]
    rfl
  rw [hbytes, List.cons_append, List.cons_append, List.cons_append, List.nil_append,
    pathUnescape?, hx, hy]
  simp only [Nat.div_add_mod, UInt8.ofNat_toNat]

/-- **Round trip.** A segment whose percent signs were escaped is unescaped to what it was. -/
theorem pathUnescape_percentEncode {inSet : Char → Bool} (h : inSet '%' = true) (cs : List Char) :
    pathUnescape (Utf8.encode (UrlText.percentEncode inSet cs)) = Utf8.encode cs := by
  have hbytes : ∀ (bs p : Text), pathUnescape?
      (Utf8.encode (bs.flatMap UrlText.percentByte) ++ p) =
        (pathUnescape? p).map fun q => bs ++ q := by
    intro bs p
    induction bs with
    | nil => simp [Utf8.encode]
    | cons b bs ih =>
      have hcons : Utf8.encode ((b :: bs).flatMap UrlText.percentByte) =
          Utf8.encode (UrlText.percentByte b) ++ Utf8.encode (bs.flatMap UrlText.percentByte) := by
        rw [List.flatMap_cons, Utf8.encode, List.flatMap_append]
        rfl
      rw [hcons, List.append_assoc, pathUnescape?_percentByte, ih, Option.map_map]
      rfl
  have hall : pathUnescape? (Utf8.encode (UrlText.percentEncode inSet cs)) =
      some (Utf8.encode cs) := by
    induction cs with
    | nil => rfl
    | cons c cs ih =>
      have hcons : Utf8.encode (UrlText.percentEncode inSet (c :: cs)) =
          Utf8.encode (UrlText.percentEncodeChar inSet c) ++
            Utf8.encode (UrlText.percentEncode inSet cs) := by
        rw [UrlText.percentEncode, List.flatMap_cons, Utf8.encode, List.flatMap_append]
        rfl
      have htext : Utf8.encode (c :: cs) = String.utf8EncodeChar c ++ Utf8.encode cs := rfl
      rw [hcons, htext, UrlText.percentEncodeChar]
      split
      · rw [hbytes, ih]
        rfl
      · next hc =>
        have hnotMem : '%' ∉ [c] := by
          rw [List.mem_singleton]
          rintro rfl
          exact hc h
        have hsingle : Utf8.encode [c] = String.utf8EncodeChar c := by
          rw [Utf8.encode, List.flatMap_singleton]
        rw [pathUnescape?_append (Utf8.notMem_encode (d := '%') (by decide) hnotMem), ih, hsingle]
        rfl
  rw [pathUnescape, hall]
  rfl

/-! ### One subtree and a catch-all -/

/-- The multiplexer that sends the paths under one first segment to `a` and all others to `b`,
whatever the method. -/
def subtreeMux (s : Text) (a b : H) : List (Pattern × H) :=
  [(⟨none, [.lit s, .multi]⟩, a), (⟨none, [.multi]⟩, b)]

/-- The first segment of a path is `s`, and another one follows. -/
def Under (s : Text) (path : Text) : Prop :=
  (pathSegments path).head? = some s ∧ (pathSegments path).tail ≠ []

instance (s path : Text) : Decidable (Under s path) := inferInstanceAs (Decidable (_ ∧ _))

/-- With one more slash the path would be exactly the root of a subtree of `subtreeMux`. -/
def LacksSlash (s : Text) (path : Text) : Prop :=
  path.getLast? ≠ some 47 ∧ (path ++ slash).count 47 = if Under s (path ++ slash) then 2 else 1

instance (s path : Text) : Decidable (LacksSlash s path) := inferInstanceAs (Decidable (_ ∧ _))

private theorem matchPath_nil (segs : List Text) : matchPath ([] : List (List Segment × H)) segs = none := by
  induction segs with
  | nil => rfl
  | cons seg rest ih => simp [matchPath, ih]

/-- A multi wildcard takes one or more segments. -/
private theorem matchPath_multi (h : H) {segs : List Text} (hsegs : segs ≠ []) :
    matchPath [([.multi], h)] segs = some (h, []) := by
  obtain ⟨seg, rest, rfl⟩ := List.exists_cons_of_ne_nil hsegs
  simp [matchPath, List.filterMap_cons, stepLit, stepWild, matchPath_nil]

private theorem matchPath_subtree (s : Text) (a b : H) {segs : List Text} (hsegs : segs ≠ []) :
    matchPath [([.lit s, .multi], a), ([.multi], b)] segs =
      some (if segs.head? = some s ∧ segs.tail ≠ [] then a else b, []) := by
  obtain ⟨seg, rest, rfl⟩ := List.exists_cons_of_ne_nil hsegs
  have hwild : [([.lit s, .multi], a), ([.multi], b)].filterMap stepWild = [] := rfl
  by_cases hseg : seg = s
  · -- the literal leaves its multi wildcard, which needs one more segment
    subst hseg
    have hlit : [([.lit seg, .multi], a), ([.multi], b)].filterMap (stepLit seg) =
        [([.multi], a)] := by
      simp [List.filterMap_cons, stepLit]
    by_cases hrest : rest = []
    · simp [matchPath, hlit, hwild, hrest]
    · simp [matchPath, hlit, matchPath_multi a hrest, hrest]
  · have hlit : [([.lit s, .multi], a), ([.multi], b)].filterMap (stepLit seg) = [] := by
      simp [List.filterMap_cons, stepLit, Ne.symm hseg]
    simp [matchPath, hlit, hwild, matchPath_nil, hseg]

theorem pathSegments_ne_nil {path : Text} (h : path ≠ []) : pathSegments path ≠ [] := by
  obtain ⟨b, p, rfl⟩ := List.exists_cons_of_ne_nil h
  obtain ⟨t, ts, hsplit⟩ := List.exists_cons_of_ne_nil (List.splitOn_ne_nil 47 p)
  rw [pathSegments, hsplit]
  unfold markTrailing
  split <;> simp_all

private theorem matchMethodAndPath_subtreeMux (s : Text) (a b : H) (method : String) {path : Text}
    (h : path ≠ []) :
    matchMethodAndPath (subtreeMux s a b) method path =
      some (if Under s path then (⟨none, [.lit s, .multi]⟩, a) else (⟨none, [.multi]⟩, b), []) := by
  have hmatch := matchPath_subtree s (⟨⟨none, [.lit s, .multi]⟩, a⟩ : Pattern × H)
    ⟨⟨none, [.multi]⟩, b⟩ (pathSegments_ne_nil h)
  have hnone : matchMethodAndPath (subtreeMux s a b) method path =
      matchPath (withMethod (subtreeMux s a b) none) (pathSegments path) := by
    simp [matchMethodAndPath, withMethod, subtreeMux, matchPath_nil]
  exact hnone.trans hmatch

/-- Both patterns end in a multi wildcard, so that only paths with a trailing slash are matched
exactly. -/
private theorem exactMatch_subtreeMux (s : Text) (a b : H) (method : String) (path : Text) :
    (match matchMethodAndPath (subtreeMux s a b) method path with
      | some m => exactMatch m.1.1.segments path
      | none => false) =
      decide (path.getLast? = some 47 ∧ path.count 47 = if Under s path then 2 else 1) := by
  by_cases hpath : path = []
  · subst hpath
    have hnone : matchMethodAndPath (subtreeMux s a b) method [] = none := by
      simp [matchMethodAndPath, withMethod, subtreeMux, pathSegments, matchPath]
    rw [hnone]
    simp
  · rw [matchMethodAndPath_subtreeMux s a b method hpath, Bool.eq_iff_iff]
    by_cases hu : Under s path
    · simpa [exactMatch, hu] using fun _ => eq_comm
    · simpa [exactMatch, hu] using fun _ => eq_comm

private theorem lacksTrailingSlash_subtreeMux (s : Text) (a b : H) (method : String) (path : Text) :
    lacksTrailingSlash (subtreeMux s a b) method path = decide (LacksSlash s path) := by
  dsimp only [lacksTrailingSlash]
  rw [exactMatch_subtreeMux, exactMatch_subtreeMux, Bool.eq_iff_iff]
  by_cases hlast : path.getLast? = some 47 <;> simp [LacksSlash, hlast, slash]

private theorem findClean_subtreeMux (s : Text) (a b : H) (method : String) {path : Text}
    (h : path ≠ []) :
    findClean (subtreeMux s a b) method path = .handler (if Under s path then a else b) [] := by
  rw [findClean, matchMethodAndPath_subtreeMux s a b method h]
  by_cases hu : Under s path <;> simp [hu]

/-- The requests `subtreeMux` answers by itself: those for `*`, for a path that is not clean, and
for one that lacks the trailing slash of a subtree. -/
def AnsweredByMux (s : Text) (method : String) (requestURI path : Text) : Prop :=
  requestURI = [42] ∨ (method ≠ "CONNECT" ∧ cleanPath path ≠ path) ∨ LacksSlash s path

instance (s : Text) (method : String) (requestURI path : Text) :
    Decidable (AnsweredByMux s method requestURI path) := inferInstanceAs (Decidable (_ ∨ _))

/-- **Dispatch to a subtree and a catch-all.** What the multiplexer does not answer by itself
reaches one of the two handlers. -/
theorem findHandler_subtreeMux (s : Text) (a b : H) {method : String} {requestURI path : Text}
    (h : ¬AnsweredByMux s method requestURI path) :
    findHandler (subtreeMux s a b) method requestURI path =
      .handler (if Under s path then a else b) [] := by
  simp only [AnsweredByMux, not_or, not_and_or, not_not] at h
  obtain ⟨huri, hclean, hslash⟩ := h
  have hpath : path ≠ [] := by
    rintro rfl
    have hroot : ¬Under s ([] ++ slash) := fun hu => hu.2 rfl
    exact hslash ⟨nofun, by rw [if_neg hroot]; rfl⟩
  have hlacks : lacksTrailingSlash (subtreeMux s a b) method path = false := by
    rw [lacksTrailingSlash_subtreeMux, decide_eq_false hslash]
  rw [findHandler, if_neg huri]
  by_cases hconnect : method = "CONNECT"
  · simp [hconnect ▸ hlacks, hconnect, findClean_subtreeMux s a b _ hpath]
  · obtain hmethod | hclean := hclean
    · exact absurd hmethod hconnect
    · simp [hconnect, hclean, hlacks, findClean_subtreeMux s a b method hpath]

/-- A path that is not clean is redirected to the clean one, unless that lacks a slash. -/
theorem findHandler_subtreeMux_clean (s : Text) (a b : H) {method : String}
    {requestURI path : Text} (huri : requestURI ≠ [42]) (hconnect : method ≠ "CONNECT")
    (hclean : cleanPath path ≠ path) (hslash : ¬LacksSlash s (cleanPath path)) :
    findHandler (subtreeMux s a b) method requestURI path = .redirect (cleanPath path) := by
  simp [findHandler, huri, hconnect, lacksTrailingSlash_subtreeMux, hslash, hclean]

theorem findHandler_subtreeMux_self (s : Text) (a b : H) {method : String} {requestURI path : Text}
    (h : AnsweredByMux s method requestURI path) :
    findHandler (subtreeMux s a b) method requestURI path = .badRequest ∨
      ∃ target, findHandler (subtreeMux s a b) method requestURI path = .redirect target := by
  by_cases huri : requestURI = [42]
  · exact .inl (by rw [findHandler, if_pos huri])
  refine .inr ?_
  simp only [AnsweredByMux, huri, false_or] at h
  by_cases hconnect : method = "CONNECT"
  · obtain ⟨hne, -⟩ | hslash := h
    · exact absurd hconnect hne
    · refine ⟨cleanPath path ++ slash, ?_⟩
      simp [findHandler, huri, hconnect, lacksTrailingSlash_subtreeMux, hslash]
  · by_cases hslash : LacksSlash s (cleanPath path)
    · refine ⟨cleanPath path ++ slash, ?_⟩
      simp [findHandler, huri, hconnect, lacksTrailingSlash_subtreeMux, hslash]
    · by_cases hclean : cleanPath path = path
      · rw [hclean] at hslash
        obtain ⟨-, hne⟩ | hslash' := h
        · exact absurd hclean hne
        · exact absurd hslash' hslash
      · exact ⟨_, findHandler_subtreeMux_clean s a b huri hconnect hclean hslash⟩

end ServeMux
