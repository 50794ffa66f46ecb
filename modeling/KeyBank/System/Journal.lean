import KeyBank.System.Answers
import KeyBank.System.Pages

/-!
# The journal of the system

What a world keeps through every event (`World.Inv`): the server's part of it is a run of the
application on the requests that have come in (`World.Inv.served`); each text a share page decrypts
with was returned to this page by a `Load` of its id (`World.Fetched`); each key a create page
encrypts with was made for this page by a `Save` (`World.Issued`).
-/

namespace KeyBank

open Interleaving

namespace World

variable {d : Deployment} {W W' : World d}

/-! ### What is on record -/

/-- The text is a private key that was returned under the id of a share page, for a request of this
very page. -/
def Fetched (W : World d) (i : ℕ) (root : ShareRoot) (text : JSString) : Prop :=
  ∃ n ex call env key, W.exchanges[n]? = some ex ∧ ex.client = .reader i call ∧
    ⟨n, env, .load (textEncode root.shareID), .ok (some key)⟩ ∈ W.trace ∧ text = textDecode key

/-- The key is the answer to a request whose pair has been saved under its id. -/
def Issued (W : World d) (key : KeyReply) : Prop :=
  ∃ n ex env ttl id pair, W.exchanges[n]? = some ex ∧ ex.request.keyPair = some pair ∧
    ⟨n, env, .save pair.priv ttl, .ok id⟩ ∈ W.trace ∧ key = ⟨goText id, goText pair.pub⟩

/-- The link was made from its note with a key that was issued. -/
def Made (W : World d) (root : CreateRoot) (link : Link) : Prop :=
  ∃ rand key, W.Issued key ∧ link.id = key.id ∧
    encryptMessage d.platform.crypto rand key.pubPem link.note >>=
      buildShareURL root.origin key.id = .ok link.url

/-- The request is the one its page sends. -/
def Asked (W : World d) (client : Client) (r : Request) : Prop :=
  match client with
  | .creator _ _ => ∃ ttl, Arrives (createKeyRequest ttl).wire r
  | .reader i _ => ∃ reader request, W.readers[i]? = some reader ∧ reader.root.shareID ≠ [] ∧
      fetchKeyRequest reader.root.shareID = .ok request ∧ Arrives request.wire r
  | .other => True

/-- A body that is being read is the one the handler has written. -/
def Exchange.Answered (ex : Exchange) : Prop :=
  ∀ resp, ex.phase = .reading resp → ex.client.reads resp.status = true ∧
    ∃ e, ex.prog = .done e ∧ respond ex.request.method e = some resp

structure Inv (W : World d) : Prop where
  served : OpenRuns d.backend.object (d.app .new) d.backend.init W.trace W.shared
    (W.exchanges.map fun ex => (ex.request, ex.prog))
  answered : ∀ ex ∈ W.exchanges, Exchange.Answered ex
  asked : ∀ ex ∈ W.exchanges, W.Asked ex.client ex.request
  readers : ∀ (i : ℕ) (r : Reader), W.readers[i]? = some r →
    r.page.Keeps d.platform (W.Fetched i r.root)
  creators : ∀ c ∈ W.creators, c.page.Keeps W.Issued
  made : ∀ c ∈ W.creators, ∀ link ∈ c.made, W.Made c.root link

/-! ### Nothing is struck out -/

/-- The trace grows, requests and pages stay. -/
structure Grows (W W' : World d) : Prop where
  trace : W.trace ⊆ W'.trace
  exchanges : ∀ (n : ℕ) (ex : Exchange), W.exchanges[n]? = some ex → ∃ ex' : Exchange,
    W'.exchanges[n]? = some ex' ∧ ex'.client = ex.client ∧ ex'.request = ex.request
  readers : ∀ (i : ℕ) (r : Reader), W.readers[i]? = some r → ∃ r' : Reader,
    W'.readers[i]? = some r' ∧ r'.root = r.root

theorem Fetched.mono (grows : Grows W W') {i : ℕ} {root : ShareRoot} {text : JSString}
    (h : W.Fetched i root text) : W'.Fetched i root text := by
  obtain ⟨n, ex, call, env, key, hn, hclient, hload, htext⟩ := h
  obtain ⟨ex', hn', hclient', -⟩ := grows.exchanges n ex hn
  exact ⟨n, ex', call, env, key, hn', hclient'.trans hclient, grows.trace hload, htext⟩

theorem Issued.mono (grows : Grows W W') {key : KeyReply} (h : W.Issued key) : W'.Issued key := by
  obtain ⟨n, ex, env, ttl, id, pair, hn, hpair, hsave, hkey⟩ := h
  obtain ⟨ex', hn', -, hrequest⟩ := grows.exchanges n ex hn
  exact ⟨n, ex', env, ttl, id, pair, hn', by rw [hrequest, hpair], grows.trace hsave, hkey⟩

theorem Made.mono (grows : Grows W W') {root : CreateRoot} {link : Link} (h : W.Made root link) :
    W'.Made root link := by
  obtain ⟨rand, key, hissued, hrest⟩ := h
  exact ⟨rand, key, hissued.mono grows, hrest⟩

theorem Asked.mono (grows : Grows W W') {client : Client} {r : Request} (h : W.Asked client r) :
    W'.Asked client r := by
  cases client with
  | creator page call => exact h
  | other => exact h
  | reader page call =>
    obtain ⟨reader, request, hreader, hne, hrequest, harrives⟩ := h
    obtain ⟨reader', hreader', hroot⟩ := grows.readers page reader hreader
    exact ⟨reader', request, hreader', by rwa [hroot], by rwa [hroot], harrives⟩

theorem Grows.refl (W : World d) : Grows W W where
  trace := List.Subset.refl _
  exchanges _ ex hn := ⟨ex, hn, rfl, rfl⟩
  readers _ r hr := ⟨r, hr, rfl⟩

/-- What the pages know stays known. -/
private theorem Inv.known (inv : W.Inv) (grows : Grows W W') :
    (∀ ex ∈ W.exchanges, W'.Asked ex.client ex.request) ∧
      (∀ (i : ℕ) (r : Reader), W.readers[i]? = some r →
        r.page.Keeps d.platform (W'.Fetched i r.root)) ∧
      (∀ c ∈ W.creators, c.page.Keeps W'.Issued) ∧
      ∀ c ∈ W.creators, ∀ link ∈ c.made, W'.Made c.root link :=
  ⟨fun ex hex => (inv.asked ex hex).mono grows,
    fun i r hr => (inv.readers i r hr).mono fun _ htext => htext.mono grows,
    fun c hc => (inv.creators c hc).mono fun _ hkey => hkey.mono grows,
    fun c hc link hlink => (inv.made c hc link hlink).mono grows⟩

/-! ### The parts of a step -/

theorem grows_post (W : World d) (client : Client) (r : Request) : Grows W (W.post client r) where
  trace := List.Subset.refl _
  exchanges _ ex hn := by
    refine ⟨ex, ?_, rfl, rfl⟩
    have hlt := (List.getElem?_eq_some_iff.mp hn).1
    exact (List.getElem?_append_left hlt).trans hn
  readers _ r hr := ⟨r, hr, rfl⟩

theorem Inv.post (inv : W.Inv) {client : Client} {r : Request} (hasked : W.Asked client r) :
    (W.post client r).Inv := by
  have grows := grows_post W client r
  obtain ⟨haskeds, hreaders, hcreators, hmade⟩ := inv.known grows
  refine ⟨?_, fun ex hex => ?_, fun ex hex => ?_, hreaders, hcreators, hmade⟩
  · rw [World.post, List.map_append]
    exact inv.served.arrive r
  · rcases List.mem_append.mp hex with hex | hex
    · exact inv.answered ex hex
    · obtain rfl := List.mem_singleton.mp hex
      rintro resp ⟨⟩
  · rcases List.mem_append.mp hex with hex | hex
    · exact haskeds ex hex
    · obtain rfl := List.mem_singleton.mp hex
      exact hasked.mono grows

theorem Inv.postSent (inv : W.Inv) {client : Client} {conn : Connection}
    {request : Option FetchRequest}
    (hasked : ∀ q, request = some q → W.Asked client (conn.request q.wire)) :
    (W.postSent client conn request).Inv := by
  cases request with
  | none => exact inv
  | some q => exact inv.post (hasked q rfl)

private theorem getElem?_setPhase (W : World d) (n m : ℕ) (phase : ExchangePhase) :
    (W.setPhase n phase).exchanges[m]? = W.exchanges[m]?.map fun ex =>
      if n = m then { ex with phase := phase } else ex := by
  rw [setPhase, List.getElem?_modify]
  split
  · rfl
  · simp

theorem grows_setPhase (W : World d) (n : ℕ) (phase : ExchangePhase) :
    Grows W (W.setPhase n phase) where
  trace := List.Subset.refl _
  exchanges m ex hm := by
    rw [getElem?_setPhase, hm]
    refine ⟨_, rfl, ?_, ?_⟩ <;> dsimp only <;> split <;> rfl
  readers _ r hr := ⟨r, hr, rfl⟩

theorem Inv.setPhase (inv : W.Inv) {n : ℕ} {ex : Exchange} {phase : ExchangePhase}
    (hn : W.exchanges[n]? = some ex) (hphase : Exchange.Answered { ex with phase := phase }) :
    (W.setPhase n phase).Inv := by
  have grows := grows_setPhase W n phase
  obtain ⟨haskeds, hreaders, hcreators, hmade⟩ := inv.known grows
  have hmem : ∀ ex' ∈ (W.setPhase n phase).exchanges, ∃ m ex₀, W.exchanges[m]? = some ex₀ ∧
      ex' = if n = m then { ex₀ with phase := phase } else ex₀ := by
    intro ex' hex'
    obtain ⟨m, hm⟩ := List.mem_iff_getElem?.mp hex'
    rw [getElem?_setPhase] at hm
    obtain ⟨ex₀, hex₀, heq⟩ := Option.map_eq_some_iff.mp hm
    exact ⟨m, ex₀, hex₀, heq.symm⟩
  refine ⟨?_, fun ex' hex' => ?_, fun ex' hex' => ?_, hreaders, hcreators, hmade⟩
  · have hmap : (W.setPhase n phase).exchanges.map (fun ex => (ex.request, ex.prog)) =
        W.exchanges.map fun ex => (ex.request, ex.prog) := by
      refine List.ext_getElem? fun m => ?_
      rw [List.getElem?_map, List.getElem?_map, getElem?_setPhase, Option.map_map]
      congr 1
      funext ex
      dsimp only [Function.comp]
      split <;> rfl
    rw [hmap]
    exact inv.served
  · obtain ⟨m, ex₀, hex₀, rfl⟩ := hmem ex' hex'
    split
    · next heq =>
      subst heq
      rw [hn] at hex₀
      cases hex₀
      exact hphase
    · exact inv.answered ex₀ (List.mem_of_getElem? hex₀)
  · obtain ⟨m, ex₀, hex₀, rfl⟩ := hmem ex' hex'
    have hasked := haskeds ex₀ (List.mem_of_getElem? hex₀)
    split <;> exact hasked

theorem grows_called {n : ℕ} {ex : Exchange} (hn : W.exchanges[n]? = some ex) (env : Env) (c : Cmd)
    (next : c.Reply → Prog Api Exit) : Grows W (W.called n env ex c next) where
  trace := List.subset_append_left _ _
  exchanges m ex' hm := by
    by_cases heq : n = m
    · subst heq
      rw [hn] at hm
      cases hm
      have hlt := (List.getElem?_eq_some_iff.mp hn).1
      exact ⟨_, List.getElem?_set_self hlt, rfl, rfl⟩
    · exact ⟨ex', (List.getElem?_set_ne heq).trans hm, rfl, rfl⟩
  readers _ r hr := ⟨r, hr, rfl⟩

theorem Inv.called (inv : W.Inv) {n : ℕ} {ex : Exchange} (hn : W.exchanges[n]? = some ex)
    {c : Cmd} {next : c.Reply → Prog Api Exit} (hprog : ex.prog = .call c next) (env : Env) :
    (W.called n env ex c next).Inv := by
  obtain ⟨haskeds, hreaders, hcreators, hmade⟩ := inv.known (grows_called hn env c next)
  have hmem := List.mem_of_getElem? hn
  refine ⟨?_, fun ex' hex => ?_, fun ex' hex => ?_, hreaders, hcreators, hmade⟩
  · have hthread : (W.exchanges.map fun ex => (ex.request, ex.prog))[n]? =
        some (ex.request, .call c next) := by
      rw [List.getElem?_map, hn, ← hprog]
      rfl
    rw [World.called, List.map_set]
    exact inv.served.call hthread env
  · rcases List.mem_or_eq_of_mem_set hex with hex | rfl
    · exact inv.answered ex' hex
    · -- A body is read only after the thread has finished.
      intro resp hphase
      obtain ⟨-, e, hdone, -⟩ := inv.answered ex hmem resp hphase
      rw [hprog] at hdone
      cases hdone
  · rcases List.mem_or_eq_of_mem_set hex with hex | rfl
    · exact haskeds ex' hex
    · exact haskeds ex hmem

theorem grows_setReader {i : ℕ} {r : Reader} (hr : W.readers[i]? = some r) (p : SharePage) :
    Grows W (W.setReader i ⟨r.root, p⟩) where
  trace := List.Subset.refl _
  exchanges _ ex hn := ⟨ex, hn, rfl, rfl⟩
  readers j r' hr' := by
    by_cases hij : i = j
    · subst hij
      rw [hr] at hr'
      cases hr'
      have hlt := (List.getElem?_eq_some_iff.mp hr).1
      exact ⟨_, List.getElem?_set_self hlt, rfl⟩
    · exact ⟨r', (List.getElem?_set_ne hij).trans hr', rfl⟩

theorem Inv.setReader (inv : W.Inv) {i : ℕ} {r : Reader} {p : SharePage}
    (hr : W.readers[i]? = some r) (hp : p.Keeps d.platform (W.Fetched i r.root)) :
    (W.setReader i ⟨r.root, p⟩).Inv := by
  have grows := grows_setReader hr p
  obtain ⟨haskeds, hreaders, hcreators, hmade⟩ := inv.known grows
  refine ⟨inv.served, inv.answered, haskeds, fun j r' hr' => ?_, hcreators, hmade⟩
  by_cases hij : i = j
  · subst hij
    have hlt := (List.getElem?_eq_some_iff.mp hr).1
    rw [World.setReader, List.getElem?_set_self hlt] at hr'
    cases hr'
    exact hp.mono fun _ htext => htext.mono grows
  · rw [World.setReader, List.getElem?_set_ne hij] at hr'
    exact hreaders j r' hr'

theorem Inv.setCreator (inv : W.Inv) {i : ℕ} {c : Creator} (hp : c.page.Keeps W.Issued)
    (hlinks : ∀ link ∈ c.made, W.Made c.root link) : (W.setCreator i c).Inv := by
  have grows : Grows W (W.setCreator i c) := ⟨List.Subset.refl _, fun _ ex hn => ⟨ex, hn, rfl, rfl⟩,
    fun _ r hr => ⟨r, hr, rfl⟩⟩
  obtain ⟨haskeds, hreaders, hcreators, hmade⟩ := inv.known grows
  refine ⟨inv.served, inv.answered, haskeds, hreaders, fun c' hc' => ?_, fun c' hc' => ?_⟩
  · rcases List.mem_or_eq_of_mem_set hc' with hc' | rfl
    · exact hcreators c' hc'
    · exact hp.mono fun _ hkey => hkey.mono grows
  · rcases List.mem_or_eq_of_mem_set hc' with hc' | rfl
    · exact hmade c' hc'
    · exact fun link hlink => (hlinks link hlink).mono grows

/-! ### What a body is -/

/-- The server's part of a world is a run of the application. -/
theorem Inv.exists_run (inv : W.Inv) :
    ∃ (requests : ℕ → Request) (q : Pool Api d.backend.State Exit),
      Runs d.backend.object (serverPool d.backend d.app requests) W.trace q ∧
        q.shared = W.shared ∧ ∀ (n : ℕ) (ex : Exchange), W.exchanges[n]? = some ex →
          requests n = ex.request ∧ q.threads n = ex.prog := by
  obtain ⟨requests, q, hrun, hshared, hps, -⟩ := inv.served.closed
  refine ⟨requests, q, hrun, hshared, fun n ex hn => hps n ex.request ex.prog ?_⟩
  rw [List.getElem?_map, hn]
  rfl

/-- A response that a page reads has the body the handler has written, after the calls the thread
has made. -/
private theorem Inv.path_of_reading (inv : W.Inv) {n : ℕ} {ex : Exchange} {resp : Response}
    (hn : W.exchanges[n]? = some ex) (hphase : ex.phase = .reading resp)
    (hclient : ex.client ≠ .other) (hmethod : ex.request.method ≠ "HEAD") :
    ∃ e, Prog.Path (d.app .new ex.request) (callsOf n W.trace) (.done e) ∧
      isOkStatus e.w.status = true ∧ resp.body = e.w.body := by
  obtain ⟨hreads, e, hdone, hresp⟩ := inv.answered ex (List.mem_of_getElem? hn) resp hphase
  obtain ⟨requests, q, hrun, -, hps⟩ := inv.exists_run
  obtain ⟨hrequest, hprog⟩ := hps n ex hn
  have hpath := hrun.path n
  rw [hprog, hdone] at hpath
  refine ⟨e, ?_, ?_, ?_⟩
  · rw [← hrequest]
    exact hpath
  · rw [← status_of_respond hresp]
    exact Client.isOkStatus_of_reads hclient hreads
  · rw [body_of_respond hresp, if_neg hmethod]

/-- **The body a share page reads** is a private key that was returned under its id. -/
theorem Inv.fetched_of_reading (inv : W.Inv) {n i call : ℕ} {ex : Exchange} {resp : Response}
    {r : Reader} (hn : W.exchanges[n]? = some ex) (hphase : ex.phase = .reading resp)
    (hclient : ex.client = .reader i call) (hr : W.readers[i]? = some r) :
    W.Fetched i r.root (textDecode resp.bytes) := by
  have hasked := inv.asked ex (List.mem_of_getElem? hn)
  rw [hclient] at hasked
  obtain ⟨r', request, hr', hne, hrequest, harrives⟩ := hasked
  rw [hr] at hr'
  cases hr'
  have hmethod : ex.request.method ≠ "HEAD" := by
    rw [harrives.fetchKey_method hrequest]
    decide
  obtain ⟨e, hpath, hok, hbody⟩ := inv.path_of_reading hn hphase (by simp [hclient]) hmethod
  obtain ⟨key, hload, hkey⟩ := loaded_of_fetchKey hrequest harrives hne hpath hok
  obtain ⟨env, hev⟩ := mem_of_mem_callsOf hload
  refine ⟨n, ex, call, env, key, hn, hclient, hev, ?_⟩
  rw [Response.bytes, hbody, hkey]
  simp [Content.text]

/-- **The body a create page reads** is the text of a key that was issued. -/
theorem Inv.issued_of_reading (inv : W.Inv) {n i call : ℕ} {ex : Exchange} {resp : Response}
    (hn : W.exchanges[n]? = some ex) (hphase : ex.phase = .reading resp)
    (hclient : ex.client = .creator i call) :
    ∃ key, readKeyReply resp.bytes = .ok (some key) ∧ W.Issued key := by
  have hasked := inv.asked ex (List.mem_of_getElem? hn)
  rw [hclient] at hasked
  obtain ⟨ttl, harrives⟩ := hasked
  have hmethod : ex.request.method ≠ "HEAD" := by
    rw [harrives.createKey.1]
    decide
  obtain ⟨e, hpath, hok, hbody⟩ := inv.path_of_reading hn hphase (by simp [hclient]) hmethod
  obtain ⟨pair, lifetime, id, hpair, hsave, hkey⟩ := saved_of_createKeyRequest harrives hpath hok
  obtain ⟨env, hev⟩ := mem_of_mem_callsOf hsave
  refine ⟨⟨goText id, goText pair.pub⟩, ?_, n, ex, env, lifetime, id, pair, hn, hpair, hev, rfl⟩
  rw [Response.bytes, hbody, hkey, List.flatMap_singleton, Content.text,
    readKeyReply_marshalObject]

/-! ### Every step -/

theorem inv_init (d : Deployment) : (initWorld d).Inv where
  served := .init
  answered _ hex := by cases hex
  asked _ hex := by cases hex
  readers _ _ hr := by cases hr
  creators _ hc := by cases hc
  made _ hc := by cases hc

/-- A share page is opened: it knows nothing yet. -/
private theorem Inv.openReader (inv : W.Inv) (root : ShareRoot) (location : URL) (ledger : Ledger) :
    Inv { W with
      readers := W.readers ++ [⟨root, initSharePage d.platform root location ledger⟩] } := by
  have hold (i : ℕ) (r : Reader) (hr : W.readers[i]? = some r) :
      (W.readers ++ [⟨root, initSharePage d.platform root location ledger⟩])[i]? = some r :=
    (List.getElem?_append_left (List.getElem?_eq_some_iff.mp hr).1).trans hr
  have grows : Grows W { W with
      readers := W.readers ++ [⟨root, initSharePage d.platform root location ledger⟩] } :=
    ⟨List.Subset.refl _, fun _ ex hn => ⟨ex, hn, rfl, rfl⟩, fun i r hr => ⟨r, hold i r hr, rfl⟩⟩
  obtain ⟨haskeds, hreaders, hcreators, hmade⟩ := inv.known grows
  refine ⟨inv.served, inv.answered, haskeds, fun i r hr => ?_, hcreators, hmade⟩
  obtain hlt | hge := Nat.lt_or_ge i W.readers.length
  · rw [List.getElem?_append_left hlt] at hr
    exact hreaders i r hr
  · rw [List.getElem?_append_right hge] at hr
    obtain rfl := List.mem_singleton.mp (List.mem_of_getElem? hr)
    exact SharePage.keeps_init ..

private theorem Inv.openCreator (inv : W.Inv) (root : CreateRoot) (ledger : Ledger) :
    Inv { W with creators := W.creators ++ [⟨root, initCreatePage root ledger, []⟩] } := by
  have grows : Grows W { W with
      creators := W.creators ++ [⟨root, initCreatePage root ledger, []⟩] } :=
    ⟨List.Subset.refl _, fun _ ex hn => ⟨ex, hn, rfl, rfl⟩, fun _ r hr => ⟨r, hr, rfl⟩⟩
  obtain ⟨haskeds, hreaders, hcreators, hmade⟩ := inv.known grows
  refine ⟨inv.served, inv.answered, haskeds, hreaders, fun c hc => ?_, fun c hc => ?_⟩
  · rcases List.mem_append.mp hc with hc | hc
    · exact hcreators c hc
    · obtain rfl := List.mem_singleton.mp hc
      exact CreatePage.keeps_init ..
  · rcases List.mem_append.mp hc with hc | hc
    · exact hmade c hc
    · obtain rfl := List.mem_singleton.mp hc
      rintro link ⟨⟩

/-- Something happens on a create page. -/
private theorem Inv.creatorStep (inv : W.Inv) {i : ℕ} {e : CreateEvent d.platform.crypto}
    {c : Creator} {p : CreatePage} {conn : Connection} (hc : W.creators[i]? = some c) (hlocal : e.isLocal = true)
    (hstep : c.page.step d.platform c.root e = some p) :
    ((W.setCreator i ⟨c.root, p, c.made ++ (c.page.makes d.platform c.root e).toList⟩).postSent
      (.creator i (c.page.sender e)) conn (sent c.page.requests p.requests)).Inv := by
  have hmem := List.mem_of_getElem? hc
  have keeps := inv.creators c hmem
  have hp : p.Keeps W.Issued := by
    refine keeps.step hstep fun call key heq => ?_
    subst heq
    cases hlocal
  refine (inv.setCreator (i := i) hp fun link hlink => ?_).postSent fun q hq => ?_
  · rcases List.mem_append.mp hlink with hlink | hlink
    · exact inv.made c hmem link hlink
    · -- The link is made with the key of a call that is encrypting.
      obtain ⟨call, rand, qr, ttl, key, -, hcall, hid, hurl⟩ :=
        makes_eq_some (Option.mem_toList.mp hlink)
      exact ⟨rand, key, keeps.encrypting call _ ttl key hcall, hid, hurl⟩
  · obtain hsame | ⟨ttl, hsent⟩ := keeps.mode.step_requests hstep
    · rw [sent, hsame, List.drop_length] at hq
      cases hq
    · rw [sent, hsent, List.drop_left] at hq
      cases hq
      exact ⟨ttl, conn.arrives_request rfl⟩

/-- Something happens on a share page. -/
private theorem Inv.readerStep (inv : W.Inv) {i : ℕ} {e : ShareEvent} {r : Reader} {p : SharePage}
    {conn : Connection} (hr : W.readers[i]? = some r) (hlocal : e.isLocal = true)
    (hstep : r.page.step d.platform r.root e = some p) :
    ((W.setReader i ⟨r.root, p⟩).postSent (.reader i r.page.handlers.length) conn
      (sent r.page.requests p.requests)).Inv := by
  have keeps := inv.readers i r hr
  have hp : p.Keeps d.platform (W.Fetched i r.root) := by
    refine keeps.step hstep fun call text heq => ?_
    subst heq
    cases hlocal
  refine (inv.setReader hr hp).postSent fun q hq => ?_
  cases SharePage.steps_of_step hstep with
  | @sent f request entry view hd hf hrequest hid =>
    rw [sent, List.drop_left] at hq
    cases hq
    have hlt := (List.getElem?_eq_some_iff.mp hr).1
    exact ⟨_, _, List.getElem?_set_self hlt, hid, hrequest,
      conn.arrives_request (method_of_fetchKeyRequest hrequest)⟩
  | _ =>
    rw [sent] at hq
    simp [SharePage.failed, SharePage.spent] at hq

/-- A client learns of its request. -/
private theorem Inv.receives (inv : W.Inv) {n : ℕ} {ex : Exchange} {reply : Reply}
    {phase : ExchangePhase} (hn : W.exchanges[n]? = some ex) (hreply : Replies ex reply phase)
    (hreceives : (W.setPhase n phase).Receives ex.client reply W') : W'.Inv := by
  have hanswered : Exchange.Answered { ex with phase := phase } := by
    intro resp hphase
    cases hreply with
    | @response e resp' hwaiting hprog hresp =>
      dsimp only at hphase
      split at hphase
      · next hreads =>
        cases hphase
        exact ⟨hreads, e, hprog, hresp⟩
      · cases hphase
    | noResponse | body | bodyError => cases hphase
  have inv' := inv.setPhase hn hanswered
  generalize hclient : ex.client = client at hreceives
  cases hreceives with
  | other => exact inv'
  | @creator i call reply c e p hc he hstep =>
    have hmem := List.mem_of_getElem? hc
    refine inv'.setCreator ((inv'.creators c hmem).step hstep fun call' key heq => ?_)
      (inv'.made c hmem)
    subst heq
    cases hreply with
    | @body resp hreading =>
      obtain ⟨key', hread, hissued⟩ := inv.issued_of_reading hn hreading hclient
      rw [Reply.createEvent, hread] at he
      cases he
      exact hissued.mono (grows_setPhase W n .over)
    | response | noResponse | bodyError => cases he
  | @reader i call reply r p hr hstep =>
    refine inv'.setReader hr ((inv'.readers i r hr).step hstep fun call' text heq => ?_)
    cases hreply with
    | @body resp hreading =>
      cases heq
      exact (inv.fetched_of_reading hn hreading hclient hr).mono (grows_setPhase W n .over)
    | response | noResponse | bodyError => cases heq

/-- **Step lemma.** Every event keeps the journal. -/
theorem Inv.step (inv : W.Inv) {e : WorldEvent d.platform.crypto} (h : W.step e = some W') :
    W'.Inv := by
  cases steps_of_step h with
  | creatorOpened => exact inv.openCreator ..
  | readerOpened => exact inv.openReader ..
  | creator hc hlocal hstep => exact inv.creatorStep hc hlocal hstep
  | reader hr hlocal hstep => exact inv.readerStep hr hlocal hstep
  | requested => exact inv.post trivial
  | served hn hprog => exact inv.called hn hprog _
  | replied hn hreply hreceives => exact inv.receives hn hreply hreceives

/-- **Run lemma.** The journal is kept in every world that is reached. -/
theorem inv_of_run {es : List (WorldEvent d.platform.crypto)}
    (hrun : (worldMachine d).run (initWorld d) es = some W) : W.Inv :=
  Machine.run_invariant (fun _ _ _ inv hstep => inv.step hstep) hrun (inv_init d)

end World

end KeyBank
