import KeyBank.Browser.Create
import KeyBank.Browser.ShareRun

/-!
# What the page shows as sent

The ledger has one entry for the page itself, which `static/app.js` writes from the path of the
address, and one for every call of `fetch`, written from the same values. So the API requests are
shown as they are sent; the page's own request is, too, unless its address has a query. The link
anatomy drops the query in the same way.

`shown_is_sent` says so of every run of both pages.
-/

namespace KeyBank

/-! ### Requests on the wire -/

/-- What a request line and the body of a request say. -/
structure Wire where
  method : JSString
  target : JSString
  body : Option JSString
  deriving DecidableEq

/-- The segments the URL standard takes for `.`, and those it takes for `..`. -/
def isSingleDot (segment : JSString) : Bool := [js ".", js "%2e", js "%2E"].contains segment

def isDoubleDot (segment : JSString) : Bool :=
  [js "..", js ".%2e", js ".%2E", js "%2e.", js "%2E.", js "%2e%2e", js "%2e%2E", js "%2E%2e",
    js "%2E%2E"].contains segment

/-- Resolve dot segments; a path that ends in one ends in a slash. -/
def resolveSegments : List JSString → List JSString → List JSString
  | path, [] => path
  | path, segment :: rest =>
    if isDoubleDot segment then
      resolveSegments (if rest = [] then path.dropLast ++ [[]] else path.dropLast) rest
    else if isSingleDot segment then
      resolveSegments (if rest = [] then path ++ [[]] else path) rest
    else resolveSegments (path ++ [segment]) rest

/-- The target `fetch` requests for an absolute path. -/
def requestTarget (path : JSString) : JSString :=
  js "/" ++ (js "/").intercalate (resolveSegments [] (path.tail.splitOn 47))

/-- A call of `fetch` on the wire. -/
def FetchRequest.wire (request : FetchRequest) : Wire :=
  ⟨request.method, requestTarget request.path, request.body⟩

/-- The request for the page at an address: all of it but the fragment. -/
def URL.wire (location : URL) : Wire := ⟨js "GET", location.pathname ++ location.search, none⟩

/-- What an entry of the ledger says about its request. -/
def LedgerEntry.shown (entry : LedgerEntry) : Wire :=
  ⟨entry.method, entry.path, if entry.literal then some entry.sent else none⟩

/-- **What is shown is what was sent**: the page itself, then every API request, in order. -/
def Honest (location : URL) (ledger : Ledger) (requests : List FetchRequest) : Prop :=
  ledger.map LedgerEntry.shown = location.wire :: requests.map FetchRequest.wire

/-- The ledger `static/app.js` hands to the page. -/
def appLedger (location : URL) : Ledger :=
  (Ledger.record [] (js "GET") location.pathname none (if location.hash = [] then none else
    some (js "Nothing but the address. The #fragment stayed in this browser."))).settle 0
      (js "200 · this page")

/-- An id that survives as a path segment: no dot segment. No browser opens a page under any
other. -/
def isSegment (id : JSString) : Bool :=
  match encodeURIComponent id with
  | .ok encoded => !isSingleDot encoded && !isDoubleDot encoded
  | .error _ => true

/-! ### The targets of the API -/

/-- A call of `fetch` as it is handed over. -/
def FetchRequest.told (request : FetchRequest) : Wire :=
  ⟨request.method, request.path, request.body⟩

theorem wire_createKeyRequest (ttl : ℕ) :
    (createKeyRequest ttl).wire = (createKeyRequest ttl).told := by
  have htarget : requestTarget (js "/api/keys") = js "/api/keys" := by decide +kernel
  rw [FetchRequest.wire, createKeyRequest, htarget]
  rfl

/-- The text of a component has no slash. -/
private theorem slash_notMem {id encoded : JSString} (h : encodeURIComponent id = .ok encoded) :
    (47 : UInt16) ∉ encoded := by
  rw [encodeURIComponent] at h
  split at h
  · obtain rfl := Except.ok.inj h
    have hslash : '/' ∉ UrlText.percentEncode (fun c => !isComponentUnreserved c)
        (Utf16.decode id) :=
      UrlText.notMem_percentEncode (by decide) (by decide) (Utf16.decode id)
    exact Utf16.notMem_encode (d := '/') (by decide) hslash
  · cases h

theorem wire_fetchKeyRequest {id : JSString} {request : FetchRequest} (hid : isSegment id = true)
    (h : fetchKeyRequest id = .ok request) : request.wire = request.told := by
  rcases hencoded : encodeURIComponent id with e | encoded
  · rw [fetchKeyRequest, hencoded] at h
    exact absurd h nofun
  · rw [isSegment, hencoded, Bool.and_eq_true, Bool.not_eq_true', Bool.not_eq_true'] at hid
    rw [fetchKeyRequest, hencoded] at h
    obtain rfl := Except.ok.inj h
    have hpath : (js "/api/keys/" ++ encoded).tail =
        js "api" ++ 47 :: (js "keys" ++ 47 :: encoded) := rfl
    have hsplit : (js "/api/keys/" ++ encoded).tail.splitOn 47 =
        [js "api", js "keys", encoded] := by
      rw [hpath, List.splitOn_append_cons_self_of_not_mem (by decide),
        List.splitOn_append_cons_self_of_not_mem (by decide),
        List.splitOn_eq_singleton (slash_notMem hencoded)]
    have hresolve : resolveSegments [] [js "api", js "keys", encoded] =
        [js "api", js "keys", encoded] := by
      have hplain : (isDoubleDot (js "api") = false ∧ isSingleDot (js "api") = false) ∧
          isDoubleDot (js "keys") = false ∧ isSingleDot (js "keys") = false := by decide
      simp [resolveSegments, hplain, hid]
    have htarget : requestTarget (js "/api/keys/" ++ encoded) = js "/api/keys/" ++ encoded := by
      rw [requestTarget, hsplit, hresolve, List.intercalate_cons_cons,
        List.intercalate_cons_cons, List.intercalate_singleton]
      simp only [List.append_assoc]
      rfl
    simp only [FetchRequest.wire, FetchRequest.told, htarget]

/-! ### One entry for each request -/

theorem map_shown_settle (ledger : Ledger) (entry : ℕ) (reply : JSString) :
    (ledger.settle entry reply).map LedgerEntry.shown = ledger.map LedgerEntry.shown := by
  rw [Ledger.settle]
  induction ledger generalizing entry with
  | nil => rw [List.modify_nil]
  | cons e ledger ih =>
    rcases entry with _ | entry
    · rfl
    · rw [List.modify_succ_cons, List.map_cons, List.map_cons, ih]

theorem map_shown_send (ledger : Ledger) (request : FetchRequest) :
    (ledger.send request).map LedgerEntry.shown =
      ledger.map LedgerEntry.shown ++ [request.told] := by
  have hentry : (Ledger.send [] request).map LedgerEntry.shown = [request.told] := by
    rcases request with ⟨method, path, headers, _ | body⟩ <;> rfl
  have happend : ledger.send request = ledger ++ Ledger.send [] request := rfl
  rw [happend, List.map_append, hentry]

/-- The ledger has an entry for the path, and one for every call of `fetch`, all as sent. -/
def Told (path : JSString) (ledger : Ledger) (requests : List FetchRequest) : Prop :=
  ledger.map LedgerEntry.shown = ⟨js "GET", path, none⟩ :: requests.map FetchRequest.wire

variable {path : JSString} {ledger : Ledger} {requests : List FetchRequest}

theorem Told.settle (h : Told path ledger requests) (entry : ℕ) (reply : JSString) :
    Told path (ledger.settle entry reply) requests := by
  rw [Told, map_shown_settle]
  exact h

theorem Told.send (h : Told path ledger requests) {request : FetchRequest}
    (hwire : request.wire = request.told) :
    Told path (ledger.send request) (requests ++ [request]) := by
  rw [Told, map_shown_send, List.map_append, h, ← hwire]
  rfl

theorem told_appLedger (location : URL) : Told location.pathname (appLedger location) [] := by
  rw [Told, appLedger, map_shown_settle]
  rfl

/-- So what is shown is what was sent, unless the page was requested with a query. -/
theorem Told.honest_iff {location : URL} (h : Told location.pathname ledger requests) :
    Honest location ledger requests ↔ location.search = [] := by
  rw [Honest, h, List.cons.injEq, and_iff_left rfl, URL.wire, Wire.mk.injEq]
  simp

/-! ### The share page -/

namespace SharePage

variable {env : Platform} {root : ShareRoot} {location : URL} {p p' : SharePage}

/-- What a share page opened at a location shows. Only the fragment of its address changes. -/
structure Shows (env : Platform) (location : URL) (p : SharePage) : Prop where
  told : Told location.pathname p.view.ledger p.requests
  address : ∃ fragment, p.location = { location with fragment }
  anatomy : ∃ fragment, p.view.anatomy = renderAnatomy env { location with fragment }

/-- What else changes does not matter. -/
theorem Shows.of_eq (h : Shows env location p) (hledger : p'.view.ledger = p.view.ledger)
    (hrequests : p'.requests = p.requests) (hlocation : p'.location = p.location)
    (hanatomy : p'.view.anatomy = p.view.anatomy) : Shows env location p' where
  told := by
    rw [hledger, hrequests]
    exact h.told
  address := by
    rw [hlocation]
    exact h.address
  anatomy := by
    rw [hanatomy]
    exact h.anatomy

theorem Shows.settle (h : Shows env location p) (entry : ℕ) (reply : JSString) :
    Shows env location (p.settle entry reply) :=
  ⟨h.told.settle entry reply, h.address, h.anatomy⟩

theorem Shows.resume (h : Shows env location p) (call : ℕ) (handler : ClickHandler) :
    Shows env location (p.resume call handler) := h.of_eq rfl rfl rfl rfl

theorem Shows.setState (h : Shows env location p) (card : CardState) :
    Shows env location (p.setState card) := h.of_eq rfl rfl rfl rfl

theorem Shows.setStatus (h : Shows env location p) (message : JSString) (state : StatusState) :
    Shows env location (p.setStatus message state) := h.of_eq rfl rfl rfl rfl

theorem Shows.fail (h : Shows env location p) (call : ℕ) (err : JSError) :
    Shows env location (p.fail call err) := ((h.setState _).setStatus _ _).resume _ _

theorem Shows.spend (h : Shows env location p) (call : ℕ) (message : String) :
    Shows env location (p.spend call message) := ((h.setState _).setStatus _ _).resume _ _

theorem Shows.inspectLink (htold : Told location.pathname p.view.ledger p.requests)
    (haddress : ∃ fragment, p.location = { location with fragment }) :
    Shows env location (p.inspectLink env root) := by
  obtain ⟨fragment, hfragment⟩ := haddress
  have hanatomy : renderAnatomy env p.location = renderAnatomy env { location with fragment } := by
    rw [hfragment]
  rw [SharePage.inspectLink]
  dsimp only
  split
  · exact ⟨htold, ⟨fragment, hfragment⟩, fragment, hanatomy⟩
  · exact ⟨htold, ⟨fragment, hfragment⟩, fragment, hanatomy⟩

theorem Shows.onClick (hid : isSegment root.shareID = true) (h : Shows env location p) :
    Shows env location (p.onClick root) := by
  rw [SharePage.onClick]
  split
  · exact h
  · -- The page is set to work first; the request, if there is one, is told and sent after that.
    have hworking := (h.setState .working).setStatus
      (js "Fetching the one-time private key…") .working
    dsimp only
    split
    · next request hrequest =>
      exact ⟨hworking.told.send (wire_fetchKeyRequest hid hrequest), hworking.address,
        hworking.anatomy⟩
    · next err _ =>
      exact ((hworking.setState .ready).setStatus err.message .error).of_eq rfl rfl rfl rfl

theorem Shows.navigate (h : Shows env location p) (fragment : Option JSString) :
    Shows env location (p.navigate fragment) := by
  rw [SharePage.navigate]
  split
  · exact h
  · obtain ⟨fragment', hfragment'⟩ := h.address
    refine ⟨h.told, ⟨fragment, ?_⟩, h.anatomy⟩
    rw [hfragment']

theorem Shows.onHashchange (h : Shows env location p) :
    Shows env location (p.onHashchange env root) := by
  rw [SharePage.onHashchange]
  split
  · exact .inspectLink h.told h.address
  · exact h

theorem Shows.onResponse (h : Shows env location p) (call entry status : ℕ) :
    Shows env location (p.onResponse call entry status) := by
  rw [SharePage.onResponse]
  split
  · exact (h.settle _ _).spend _ _
  · exact (h.settle _ _).resume _ _
  · exact (h.settle _ _).fail _ _

theorem Shows.onBody (h : Shows env location p) (call : ℕ) (text : JSString) :
    Shows env location (p.onBody call text) := by
  rw [SharePage.onBody]
  split
  · exact h.resume _ _
  · exact h.spend _ _

theorem Shows.onDecrypted (h : Shows env location p) (call : ℕ) (privPem : JSString)
    (f : Fragment) : Shows env location (p.onDecrypted env call privPem f) := by
  rw [SharePage.onDecrypted]
  split
  · next plaintext _ =>
    have hopened : Shows env location
        { p.setState .opened with revealed := p.revealed ++ [plaintext] } :=
      (h.setState .opened).of_eq rfl rfl rfl rfl
    exact (hopened.setStatus _ _).resume _ _
  · exact h.spend _ _

/-- **Step lemma.** Whatever happens, the ledger and the requests stay in step. -/
theorem Shows.step {e : ShareEvent} (hid : isSegment root.shareID = true)
    (h : Shows env location p) (hstep : p.step env root e = some p') : Shows env location p' := by
  cases e with
  | click =>
    rw [SharePage.step] at hstep
    split at hstep
    · cases hstep
    · obtain rfl := Option.some.inj hstep
      exact h.onClick hid
  | navigate fragment =>
    obtain rfl := Option.some.inj hstep
    exact h.navigate fragment
  | hashchange =>
    have hdelivered : Shows env location { p with hashChanges := p.hashChanges - 1 } :=
      h.of_eq rfl rfl rfl rfl
    rw [SharePage.step] at hstep
    split at hstep
    · cases hstep
    · obtain rfl := Option.some.inj hstep
      exact hdelivered.onHashchange
  | response call status =>
    rw [SharePage.step] at hstep
    split at hstep
    · next entry hcall =>
      obtain rfl := Option.some.inj hstep
      exact h.onResponse call entry status
    · cases hstep
  | noResponse call =>
    rw [SharePage.step] at hstep
    split at hstep
    · next entry hcall =>
      obtain rfl := Option.some.inj hstep
      exact (h.settle entry _).fail call unreachable
    · cases hstep
  | body call text =>
    rw [SharePage.step] at hstep
    split at hstep
    · obtain rfl := Option.some.inj hstep
      exact h.onBody call text
    · cases hstep
  | bodyError call err =>
    rw [SharePage.step] at hstep
    split at hstep
    · obtain rfl := Option.some.inj hstep
      exact h.fail call err
    · cases hstep
  | decrypted call =>
    rw [SharePage.step] at hstep
    split at hstep
    · next privPem f hcall =>
      obtain rfl := Option.some.inj hstep
      exact h.onDecrypted call privPem f
    · cases hstep

/-- **Run lemma.** -/
theorem shows_of_run {es : List ShareEvent} (hid : isSegment root.shareID = true)
    (hrun : (shareMachine env root).run (initSharePage env root location (appLedger location)) es =
      some p) : Shows env location p := by
  have hstep : ∀ (q : SharePage) e q', Shows env location q →
      (shareMachine env root).step q e = some q' → Shows env location q' :=
    fun q e q' => Shows.step hid
  exact Machine.run_invariant hstep hrun
    (.inspectLink (told_appLedger location) ⟨location.fragment, rfl⟩)

end SharePage

/-! ### The create page -/

namespace CreatePage

variable {env : Platform} {root : CreateRoot} {p p' : CreatePage}

theorem told_answered (h : Told path p.view.ledger p.requests) (confirmed : Bool) (call : ℕ) :
    Told path (p.answered confirmed call).view.ledger (p.answered confirmed call).requests := by
  rw [answered]
  split
  · split
    · exact h.send (wire_createKeyRequest _)
    · exact h
  · exact h

theorem told_onCloseDialog (h : Told path p.view.ledger p.requests) (answer : DialogAnswer) :
    Told path (p.onCloseDialog answer).view.ledger (p.onCloseDialog answer).requests := by
  rw [onCloseDialog]
  -- Each of those who listen for the dialog goes on in turn.
  suffices hall : ∀ (listeners : List ℕ) (confirmed : Bool) (q : CreatePage),
      Told path q.view.ledger q.requests →
      Told path (listeners.foldl (fun q call => q.answered confirmed call) q).view.ledger
        (listeners.foldl (fun q call => q.answered confirmed call) q).requests from
    hall _ _ _ h
  intro listeners confirmed
  induction listeners with
  | nil => exact fun q hq => hq
  | cons call listeners ih => exact fun q hq => ih _ (told_answered hq confirmed call)

/-- **Step lemma.** Whatever happens, the ledger and the requests stay in step. -/
theorem told_step {e : CreateEvent env.crypto} (h : Told path p.view.ledger p.requests)
    (hstep : p.step env root e = some p') : Told path p'.view.ledger p'.requests := by
  cases e with
  | submit answer =>
    rw [step] at hstep
    split at hstep
    · exact absurd hstep nofun
    obtain rfl := Option.some.inj hstep
    rw [onSubmit]
    split
    · exact h
    split
    · exact h
    next ttl httl =>
    -- Whatever the prompt answers, the request is listed with the entry that tells of it.
    have hprompting (confirmed : Bool) := told_answered (p := { p with
      submissions := p.submissions ++ [Submission.prompting p.message ttl] }) h confirmed
    dsimp only
    split
    · exact hprompting true _
    split
    · exact h
    · exact hprompting answer _
  | closeDialog answer =>
    rw [step] at hstep
    split at hstep
    · obtain rfl := Option.some.inj hstep
      exact told_onCloseDialog h answer
    · exact absurd hstep nofun
  | response call status =>
    rw [step] at hstep
    split at hstep
    · obtain rfl := Option.some.inj hstep
      rw [onResponse]
      split <;> exact h.settle _ _
    · exact absurd hstep nofun
  | noResponse call =>
    rw [step] at hstep
    split at hstep
    · obtain rfl := Option.some.inj hstep
      exact h.settle _ _
    · exact absurd hstep nofun
  | json call reply =>
    rw [step] at hstep
    split at hstep
    · obtain rfl := Option.some.inj hstep
      rcases reply with err | key <;> exact h
    · exact absurd hstep nofun
  | encrypted call rand qr =>
    rw [step] at hstep
    split at hstep
    · obtain rfl := Option.some.inj hstep
      rw [onEncrypted]
      split <;> exact h
    · exact absurd hstep nofun
  | input | choose | typeCustom | newNote =>
    rw [step] at hstep
    split at hstep
    · exact absurd hstep nofun
    · obtain rfl := Option.some.inj hstep
      exact h

/-- **Run lemma.** -/
theorem told_of_run {location : URL} {es : List (CreateEvent env.crypto)}
    (hrun : (createMachine env root).run (initCreatePage root (appLedger location)) es = some p) :
    Told location.pathname p.view.ledger p.requests := by
  have hstep : ∀ (q : CreatePage) e q', Told location.pathname q.view.ledger q.requests →
      (createMachine env root).step q e = some q' →
        Told location.pathname q'.view.ledger q'.requests := fun q e q' => told_step
  exact Machine.run_invariant hstep hrun (told_appLedger location)

end CreatePage

/-! ### Both pages, and the anatomy of links -/

/-- An address without its fragment. -/
def URL.withoutFragment (url : URL) : JSString :=
  Utf16.encode url.origin.1 ++ url.pathname ++ url.search

/-- The link anatomy: the part shown as sent lacks the query, the part shown as kept is the
fragment. -/
theorem renderAnatomy_spec (env : Platform) (href : URL) :
    ((renderAnatomy env href).path = href.withoutFragment ↔ href.search = []) ∧
      (renderAnatomy env href).fragment =
        if href.hash = [] then js "# (missing)" else href.hash := by
  refine ⟨?_, rfl⟩
  have hpath : (renderAnatomy env href).path = Utf16.encode href.origin.1 ++ href.pathname := rfl
  rw [hpath, URL.withoutFragment]
  simp

/-- **What is shown is what was sent**, exactly if the address the page was opened at has no
query: on the create page in every state, and likewise on a share page. The same holds of every
link whose anatomy is shown. -/
theorem shown_is_sent {env : Platform} {location : URL} :
    (∀ root es p, (createMachine env root).run (initCreatePage root (appLedger location)) es =
        some p → (Honest location p.view.ledger p.requests ↔ location.search = [])) ∧
    (∀ root es p, isSegment root.shareID = true →
      (shareMachine env root).run (initSharePage env root location (appLedger location)) es =
        some p → (Honest location p.view.ledger p.requests ↔ location.search = []) ∧
          ∃ fragment, p.view.anatomy = renderAnatomy env { location with fragment }) ∧
    ∀ href : URL, ((renderAnatomy env href).path = href.withoutFragment ↔ href.search = []) ∧
      (renderAnatomy env href).fragment =
        if href.hash = [] then js "# (missing)" else href.hash := by
  refine ⟨fun root es p hrun => ?_, fun root es p hid hrun => ?_, renderAnatomy_spec env⟩
  · exact (CreatePage.told_of_run hrun).honest_iff
  · have hshows := SharePage.shows_of_run hid hrun
    exact ⟨hshows.told.honest_iff, hshows.anatomy⟩

/-- A note is opened after a request that failed. -/
theorem shown_is_sent_retried :
    ∃ p, (shareMachine SharePage.clearPlatform SharePage.sampleRoot).run
        (initSharePage SharePage.clearPlatform SharePage.sampleRoot
          (SharePage.sampleLocation (some SharePage.sampleFragment))
          (appLedger (SharePage.sampleLocation (some SharePage.sampleFragment))))
        [.click, .noResponse 0, .click, .response 1 200] = some p ∧
      p.requests.length = 2 ∧
      Honest (SharePage.sampleLocation (some SharePage.sampleFragment)) p.view.ledger
        p.requests := by
  have hsent : ((shareMachine SharePage.clearPlatform SharePage.sampleRoot).run
      (initSharePage SharePage.clearPlatform SharePage.sampleRoot
        (SharePage.sampleLocation (some SharePage.sampleFragment))
        (appLedger (SharePage.sampleLocation (some SharePage.sampleFragment))))
      [.click, .noResponse 0, .click, .response 1 200]).map (fun p => p.requests.length) =
        some 2 := by decide +kernel
  obtain ⟨p, hrun, hlength⟩ := Option.map_eq_some_iff.mp hsent
  have hid : isSegment SharePage.sampleRoot.shareID = true := by decide +kernel
  exact ⟨p, hrun, hlength, (shown_is_sent.2.1 _ _ p hid hrun).1.mpr rfl⟩

/-- The start page with a query. -/
def campaignLocation : URL where
  origin := localOrigin
  pathname := js "/"
  search := js "?from=mail"
  fragment := none

/-- The page was requested with the query; its ledger and the anatomy of its address have none. -/
theorem shown_is_sent_campaign :
    (appLedger campaignLocation).map LedgerEntry.shown = [⟨js "GET", js "/", none⟩] ∧
      campaignLocation.wire = ⟨js "GET", js "/?from=mail", none⟩ ∧
      ¬ Honest campaignLocation (appLedger campaignLocation) [] ∧
      (renderAnatomy SharePage.clearPlatform campaignLocation).path =
        js "http://localhost:8080/" ∧
      campaignLocation.withoutFragment = js "http://localhost:8080/?from=mail" := by
  have hledger : (appLedger campaignLocation).map LedgerEntry.shown =
      [⟨js "GET", js "/", none⟩] := by decide +kernel
  refine ⟨hledger, by decide +kernel, ?_, by decide +kernel, by decide +kernel⟩
  rw [Honest, hledger]
  exact fun h => absurd h (by decide +kernel)

end KeyBank
