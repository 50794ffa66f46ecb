import KeyBank.Server.App
import Mathlib.Data.List.Induction

/-!
# Hardened responses

Which responses carry the header fields of `SecurityHeaders`. The two chains of `newAppHandler`
set them before the inner multiplexers run, and nothing inside takes one back.

* `Keeps fields next`: whatever the shared state replies, and even if it panics, `next` ends with
  a writer that still has the fields. It is proved handler by handler and middleware by
  middleware, so that a new route needs one line.
* `appUnder fault` is the application with a fault put inside both chains, `appHandler` being the
  one without. A fault may panic anywhere, but it leaves alone what has been set.
* `rootMux` is outside both chains. What it answers by itself, a redirect or 400, has no header
  field but its own, and `hardened_iff` says that this is the only exception.
-/

namespace KeyBank

open Interleaving ServeMux

/-! ### Carrying header fields -/

namespace Header

theorem get_set (h : Header) (name : String) (value : GoString) :
    (h.set name value).get name = value := by
  have hnone : (h.filter fun f => f.1 ≠ name).lookup name = none := by
    rw [List.lookup_eq_none_iff]
    intro f hf
    have hne : f.1 ≠ name := of_decide_eq_true (List.mem_filter.mp hf).2
    exact bne_iff_ne.mpr hne.symm
  rw [get, set, List.lookup_append, hnone, List.lookup_cons, beq_self_eq_true]
  rfl

theorem get_set_of_ne (h : Header) {name other : String} (hne : other ≠ name) (value : GoString) :
    (h.set name value).get other = h.get other := by
  have hkeep : (h.filter fun f => f.1 ≠ name).lookup other = h.lookup other := by
    induction h with
    | nil => rfl
    | cons f h ih =>
      by_cases hf : f.1 = name
      · rw [List.filter_cons_of_neg (by simpa using hf), ih, List.lookup_cons, hf,
          beq_false_of_ne hne]
      · rw [List.filter_cons_of_pos (by simpa using hf), List.lookup_cons, List.lookup_cons, ih]
  have hother : [(name, value)].lookup other = none := by
    rw [List.lookup_cons, beq_false_of_ne hne]
    rfl
  rw [get, get, set, List.lookup_append, hkeep, hother, Option.or_none]

/-- The header has these fields, with these values. -/
def Has (h fields : Header) : Prop := ∀ f ∈ fields, h.get f.1 = f.2

theorem Has.set {h fields : Header} (hhas : h.Has fields) {name : String} {value : GoString}
    (hagree : ∀ f ∈ fields, f.1 = name → f.2 = value) : (h.set name value).Has fields := by
  intro f hf
  by_cases hname : f.1 = name
  · rw [hname, get_set, hagree f hf hname]
  · rw [get_set_of_ne h hname, hhas f hf]

end Header

/-- The fields `SecurityHeaders` sets. -/
def securityFields : Header := hardeningHeaders ++ [("Cache-Control", lit "no-store")]

namespace ResponseWriter

/-- The writer has the fields, and has sent no status without them. -/
structure Carries (fields : Header) (w : ResponseWriter) : Prop where
  header : w.header.Has fields
  sent : ∀ status h, w.sent = some (status, h) → h.Has fields

variable {fields : Header} {w : ResponseWriter}

theorem Carries.writeHeader (h : w.Carries fields) (status : ℕ) :
    (w.writeHeader status).Carries fields := by
  unfold ResponseWriter.writeHeader
  split
  · exact h
  · refine ⟨h.header, fun status' hdr hsent => ?_⟩
    cases hsent
    exact h.header

theorem Carries.write (h : w.Carries fields) (c : Content) : (w.write c).Carries fields :=
  ⟨(h.writeHeader 200).header, (h.writeHeader 200).sent⟩

/-- A writer that has sent nothing carries what is set on it. -/
theorem Fresh.carries_setHeaders (hw : w.Fresh)
    (hagree : ∀ f ∈ fields, ∀ g ∈ fields, f.1 = g.1 → f.2 = g.2) :
    (w.setHeaders fields).Carries fields := by
  have hhas : (w.setHeaders fields).header.Has fields := by
    induction fields using List.reverseRecOn with
    | nil => exact nofun
    | append_singleton fields f ih =>
      have hset : w.setHeaders (fields ++ [f]) = (w.setHeaders fields).setHeader f.1 f.2 := by
        simp [ResponseWriter.setHeaders]
      have hold := ih fun g hg g' hg' =>
        hagree g (List.mem_append_left _ hg) g' (List.mem_append_left _ hg')
      rw [hset]
      intro g hg
      rw [List.mem_append, List.mem_singleton] at hg
      rcases hg with hg | rfl
      · exact hold.set (fun g hg hname => hagree g (List.mem_append_left _ hg) f (by simp) hname) g hg
      · exact Header.get_set _ _ _
  refine ⟨hhas, fun status h hsent => ?_⟩
  rw [(hw.setHeaders fields).sent] at hsent
  cases hsent

variable (hfields : fields ⊆ securityFields)

include hfields in
theorem Carries.setHeader (h : w.Carries fields) {name : String} {value : GoString}
    (hagree : ∀ f ∈ securityFields, f.1 = name → f.2 = value) :
    (w.setHeader name value).Carries fields :=
  ⟨h.header.set fun f hf => hagree f (hfields hf), h.sent⟩

include hfields in
theorem Carries.setOther (h : w.Carries fields) {name : String} {value : GoString}
    (hother : ∀ f ∈ securityFields, f.1 ≠ name) : (w.setHeader name value).Carries fields :=
  h.setHeader hfields fun f hf hname => absurd hname (hother f hf)

include hfields in
/-- `http.Error` sets two fields, one of them to the value it has already. -/
theorem Carries.error (h : w.Carries fields) (message : String) (status : ℕ) :
    (w.error message status).Carries fields := by
  have hnosniff : ∀ f ∈ securityFields, f.1 = "X-Content-Type-Options" → f.2 = lit "nosniff" := by
    decide
  exact (((h.setOther hfields (by decide)).setHeader hfields hnosniff).writeHeader status).write _

end ResponseWriter

/-! ### Handlers that keep header fields -/

/-- Whatever is replied to its calls, and even if it panics, the handler ends with a writer that
carries the fields it carried before. -/
def Keeps (fields : Header) (next : Handler) : Prop :=
  ∀ w r, w.Carries fields → (next w r).All fun e => e.w.Carries fields

section Handlers

variable {fields : Header} (hfields : fields ⊆ securityFields)

include hfields

theorem carries_writeJSONError {w : ResponseWriter} (hw : w.Carries fields) (status : ℕ)
    (code : String) : (writeJSONError w status code).Carries fields :=
  ((hw.setOther hfields (by decide)).writeHeader status).write _

theorem carries_writeDecodeError {w : ResponseWriter} (hw : w.Carries fields)
    (err : Option DecodeError) : (writeDecodeError w err).Carries fields := by
  unfold writeDecodeError
  split <;> exact carries_writeJSONError hfields hw _ _

theorem carries_keySaved {w : ResponseWriter} (hw : w.Carries fields) (key : KeyPair)
    (saved : Except StoreError GoString) : (Handlers.keySaved w key saved).Carries fields := by
  rcases saved with e | id
  · exact hw.error hfields _ _
  · exact ((hw.setOther hfields (by decide)).writeHeader 201).write _

theorem carries_keyLoaded {w : ResponseWriter} (hw : w.Carries fields)
    (loaded : Except StoreError (Option Bytes)) : (Handlers.keyLoaded w loaded).Carries fields := by
  rcases loaded with e | _ | key
  · exact hw.error hfields _ _
  · exact hw.error hfields _ _
  · exact (hw.writeHeader 200).write _

theorem keeps_createKeyFor (h : Handlers) (seconds : Int64) :
    Keeps fields (h.createKeyFor seconds) := by
  intro w r hw
  unfold Handlers.createKeyFor Handlers.generateAndSave
  split
  · exact carries_writeJSONError hfields hw _ _
  · split
    · exact hw.error hfields _ _
    · exact fun saved => carries_keySaved hfields hw _ saved

theorem keeps_createKey (h : Handlers) (decode : Decoder) : Keeps fields (h.createKey decode) := by
  intro w r hw
  unfold Handlers.createKey
  split
  · exact keeps_createKeyFor hfields h 0 w r hw
  · exact carries_writeDecodeError hfields hw _
  · exact carries_writeJSONError hfields hw _ _
  · split
    · exact keeps_createKeyFor hfields h _ w r hw
    · exact carries_writeDecodeError hfields hw _

theorem keeps_fetchKey : Keeps fields Handlers.fetchKey :=
  fun _ _ hw loaded => carries_keyLoaded hfields hw loaded

/-- The three pages differ in the data they render. -/
theorem keeps_renderPage (h : Handlers) (data : Request → PageData) :
    Keeps fields fun w r => h.renderPage w (data r) := by
  intro w r hw
  dsimp only [Handlers.renderPage]
  split
  · exact hw.error hfields _ _
  · exact ((hw.setOther hfields (by decide)).writeHeader _).write _

theorem keeps_rateLimit {bucket : Bucket} {trustXFF : Bool} {next : Handler}
    (hnext : Keeps fields next) : Keeps fields (rateLimit bucket trustXFF next) := by
  intro w r hw allowed
  cases allowed
  · exact hw.error hfields _ _
  · exact hnext w r hw

omit hfields in
theorem keeps_maxBodySize {limit : ℕ} {next : Handler} (hnext : Keeps fields next) :
    Keeps fields (maxBodySize limit next) :=
  fun w _ hw => hnext w _ hw

/-- A multiplexer sets `Location`, `Allow` or `Connection`, or answers with `http.Error`. -/
theorem keeps_serveMux {mux : List (Pattern × Handler)} (hmux : ∀ p ∈ mux, Keeps fields p.2) :
    Keeps fields (serveMux mux) := by
  intro w r hw
  unfold serveMux
  split
  · next next matched hfound =>
    obtain ⟨p, hp, -⟩ := mem_of_findHandler hfound
    exact hmux _ hp _ _ hw
  · exact (hw.setOther hfields (by decide)).writeHeader 301
  · exact (hw.setOther hfields (by decide)).error hfields _ _
  · exact hw.error hfields _ _
  · exact (hw.setOther hfields (by decide)).writeHeader 400

/-- A recovered panic is answered on the writer it left behind. -/
theorem all_panicRecover {next : Handler} {w : ResponseWriter} {r : Request}
    (h : (next w r).All fun e => e.w.Carries fields) :
    (panicRecover next w r).All fun e => e.panicked = false ∧ e.w.Carries fields := by
  refine h.bind fun e he => ?_
  by_cases hpanic : e.panicked
  · rw [if_pos hpanic]
    exact ⟨rfl, he.error hfields _ _⟩
  · rw [if_neg hpanic]
    exact ⟨by simpa using hpanic, he⟩

end Handlers

/-! ### The application -/

section Application

variable {assets : Assets} {decode : Decoder} {h : Handlers} {trustXFF : Bool}

theorem keeps_staticMux (hfiles : Keeps hardeningHeaders fun w r => .done (assets.fileServer w r)) :
    Keeps hardeningHeaders (serveMux (staticMux assets)) :=
  keeps_serveMux (List.subset_append_left _ _) fun p hp => by
    obtain rfl := List.mem_singleton.mp hp
    exact hfiles

theorem keeps_dynamicMux : Keeps securityFields (serveMux (dynamicMux decode h trustXFF)) := by
  have hself : securityFields ⊆ securityFields := fun _ hf => hf
  refine keeps_serveMux hself fun p hp => ?_
  simp only [dynamicMux, List.mem_cons, List.not_mem_nil, or_false] at hp
  rcases hp with rfl | rfl | rfl | rfl | rfl
  · exact keeps_maxBodySize (keeps_rateLimit hself (keeps_createKey hself h decode))
  · exact keeps_rateLimit hself (keeps_fetchKey hself)
  all_goals exact keeps_renderPage hself h _

/-- A fault inside a chain may panic or answer anything, but header fields that were set before
stay set. -/
def LeavesHeaders (fault : Handler → Handler) : Prop :=
  ∀ fields, fields ⊆ securityFields → ∀ next, Keeps fields next → Keeps fields (fault next)

/-- The application with a fault inside both chains. -/
def appUnder (fault : Handler → Handler) (assets : Assets) (decode : Decoder) (h : Handlers)
    (trustXFF : Bool) : Handler :=
  serveMux (subtreeMux (lit "static")
    (chain [panicRecover, staticHeaders] (fault (serveMux (staticMux assets))))
    (chain [panicRecover, securityHeaders] (fault (serveMux (dynamicMux decode h trustXFF)))))

/-- The application as it is has no fault. -/
theorem appUnder_id : appUnder id assets decode h trustXFF = appHandler assets decode h trustXFF :=
  rfl

/-- A response is hardened: it has the five fields, and is not to be stored unless it was asked
for under `/static/`. -/
structure Hardened (path : Bytes) (resp : Response) : Prop where
  fields : resp.header.Has hardeningHeaders
  noStore : ¬Under (lit "static") path → resp.header.get "Cache-Control" = lit "no-store"

/-- A handler that does not panic is answered with the header its writer carries. -/
theorem ResponseWriter.Carries.exists_respond {fields : Header} {method : String} {e : Exit}
    (hpanic : e.panicked = false) (he : e.w.Carries fields) :
    ∃ resp, respond method e = some resp ∧ resp.header.Has fields := by
  obtain ⟨w, panicked⟩ := e
  obtain rfl : panicked = false := hpanic
  refine ⟨_, rfl, ?_⟩
  rcases hsent : w.sent with _ | ⟨status, sent⟩
  · simpa [hsent] using he.header
  · simpa [hsent] using he.sent status sent hsent

/-- What goes through a chain has its fields. -/
theorem all_chain_static {next : Handler} (hnext : Keeps hardeningHeaders next) (r : Request) :
    (chain [panicRecover, staticHeaders] next .new r).All fun e =>
      e.panicked = false ∧ e.w.Carries hardeningHeaders :=
  all_panicRecover (List.subset_append_left _ _)
    (hnext _ r (ResponseWriter.fresh_new.carries_setHeaders (by decide)))

theorem all_chain_dynamic {next : Handler} (hnext : Keeps securityFields next) (r : Request) :
    (chain [panicRecover, securityHeaders] next .new r).All fun e =>
      e.panicked = false ∧ e.w.Carries securityFields :=
  have hagree : ∀ f ∈ securityFields, ∀ g ∈ securityFields, f.1 = g.1 → f.2 = g.2 := by decide
  all_panicRecover (fun _ hf => hf) (hnext _ r (ResponseWriter.fresh_new.carries_setHeaders hagree))

/-- A response whose only field is of the multiplexer's own. -/
theorem not_hardened_of_header {path : Bytes} {resp : Response} {name : String} {value : GoString}
    (hheader : resp.header = [(name, value)]) (hname : name ≠ "X-Frame-Options") :
    ¬Hardened path resp := by
  intro hhard
  have hframe := hhard.fields ("X-Frame-Options", lit "DENY") (by simp [hardeningHeaders])
  rw [hheader, Header.get, List.lookup_cons, beq_false_of_ne hname.symm] at hframe
  exact List.cons_ne_nil _ _ hframe.symm

/-- **Every response is hardened that does not come from `rootMux` itself.** The shared state may
reply anything, and what runs inside the chains may panic. -/
theorem hardened_iff {fault : Handler → Handler} (hfault : LeavesHeaders fault)
    (hfiles : Keeps hardeningHeaders fun w r => .done (assets.fileServer w r)) (r : Request)
    {l : List (Σ c : Cmd, c.Reply)} {e : Exit}
    (hrun : Prog.Path (appUnder fault assets decode h trustXFF .new r) l (.done e)) :
    ∃ resp, respond r.method e = some resp ∧
      (Hardened r.path resp ↔ ¬AnsweredByMux (lit "static") r.method r.requestURI r.path) := by
  have hstatic := all_chain_static (hfault _ (List.subset_append_left _ _) _ (keeps_staticMux hfiles))
  have hdynamic := all_chain_dynamic
    (hfault _ (fun _ hf => hf) _ (@keeps_dynamicMux decode h trustXFF))
  rw [appUnder] at hrun
  generalize chain [panicRecover, staticHeaders] _ = a at hstatic hrun
  generalize chain [panicRecover, securityHeaders] _ = b at hdynamic hrun
  rw [serveMux] at hrun
  by_cases hmux : AnsweredByMux (lit "static") r.method r.requestURI r.path
  · -- the multiplexer outside the chains answers, with a header of its own
    rcases findHandler_subtreeMux_self (lit "static") a b hmux with hfound | ⟨target, hfound⟩
    all_goals
      rw [hfound] at hrun
      obtain ⟨-, he⟩ := Prog.path_done_iff.mp hrun
      obtain rfl := Prog.done.inj he
      refine ⟨_, rfl, iff_of_false ?_ (not_not_intro hmux)⟩
      exact not_hardened_of_header rfl (by decide)
  · rw [findHandler_subtreeMux (lit "static") a b hmux] at hrun
    -- Otherwise one of the chains does, and what runs under it keeps the headers it has set.
    by_cases hunder : Under (lit "static") r.path
    · simp only [if_pos hunder] at hrun
      obtain ⟨hpanic, hcarries⟩ := (hstatic _).of_path hrun
      obtain ⟨resp, hresp, hhas⟩ := hcarries.exists_respond hpanic
      exact ⟨resp, hresp, iff_of_true ⟨hhas, fun hno => absurd hunder hno⟩ hmux⟩
    · simp only [if_neg hunder] at hrun
      obtain ⟨hpanic, hcarries⟩ := (hdynamic _).of_path hrun
      obtain ⟨resp, hresp, hhas⟩ := hcarries.exists_respond hpanic
      have hhard := fun f hf => hhas f (List.mem_append_left _ hf)
      have hstore := hhas ("Cache-Control", lit "no-store") (List.mem_append_right _ (by simp))
      exact ⟨resp, hresp, iff_of_true ⟨hhard, fun _ => hstore⟩ hmux⟩

/-- The empty file server answers with `http.NotFound`. -/
theorem keeps_emptyAssets : Keeps hardeningHeaders fun w r => .done (emptyAssets.fileServer w r) :=
  fun _ _ hw => hw.error (List.subset_append_left _ _) _ _

/-- The fault that lets every request panic once it has been served. -/
def panicAfter : Handler → Handler := fun next w r => do
  let e ← next w r
  pure ⟨e.w, true⟩

theorem leavesHeaders_panicAfter : LeavesHeaders panicAfter :=
  fun _ _ _ hnext w r hw => (hnext w r hw).bind fun _ he => he

/-- A key is asked for, and the handler panics at the end. -/
theorem hardened_iff_panicking :
    ∃ l e resp, Prog.Path
        (appUnder panicAfter emptyAssets decodeEmpty (Handlers.new none) false .new
          (bareRequest "GET" "/api/keys/0" none)) l (.done e) ∧
      respond "GET" e = some resp ∧ Hardened (lit "/api/keys/0") resp := by
  have hreply : ∀ c : Cmd, Nonempty c.Reply := by
    rintro (_ | _ | _)
    · exact ⟨true⟩
    · exact ⟨.ok []⟩
    · exact ⟨.ok none⟩
  obtain ⟨l, e, hrun⟩ := @Prog.exists_path Api _ hreply
    (appUnder panicAfter emptyAssets decodeEmpty (Handlers.new none) false .new
      (bareRequest "GET" "/api/keys/0" none))
  obtain ⟨resp, hresp, hhard⟩ := hardened_iff leavesHeaders_panicAfter keeps_emptyAssets _ hrun
  exact ⟨l, e, resp, hrun, hresp, hhard.mpr (by decide)⟩

/-- `GET //share/0` is answered with a redirect that has none of the fields. -/
theorem not_hardened_doubleSlash :
    ∃ e resp, Prog.Path
        (appHandler emptyAssets decodeEmpty (Handlers.new none) false .new
          (bareRequest "GET" "//share/0" none)) [] (.done e) ∧
      respond "GET" e = some resp ∧ resp.status = 301 ∧
      (∀ f ∈ securityFields, resp.header.get f.1 = []) ∧
      ¬Hardened (lit "//share/0") resp := by
  have hclean : cleanPath (lit "//share/0") = lit "/share/0" := by decide
  have hfound : findHandler (rootMux emptyAssets decodeEmpty (Handlers.new none) false) "GET"
      (lit "//share/0") (lit "//share/0") = .redirect (lit "/share/0") := by
    rw [← hclean]
    exact findHandler_subtreeMux_clean (lit "static") (staticHandler emptyAssets)
      (dynamicHandler decodeEmpty (Handlers.new none) false) (by decide) (by decide) (by decide)
      (by decide)
  have hredirect : appHandler emptyAssets decodeEmpty (Handlers.new none) false .new
      (bareRequest "GET" "//share/0" none) =
        finish ((ResponseWriter.new.setHeader "Location" (lit "/share/0")).writeHeader 301) := by
    simp only [appHandler, serveMux, bareRequest, hfound]
  rw [hredirect]
  exact ⟨_, _, .nil _, rfl, rfl, by decide, not_hardened_of_header rfl (by decide)⟩

end Application

end KeyBank
